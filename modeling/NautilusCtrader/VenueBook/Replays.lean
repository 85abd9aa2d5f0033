import NautilusCtrader.VenueBook.EndedOrders
import NautilusCtrader.VenueBook.HeldState

/-!
# Applying an event a second time

Handlers read and write one position and the rest of the book, never the dictionary the position comes
from, so they do the same on a focus that holds other positions. Most of what a raising attempt leaves
is written again alike by the next: the state synced, the entry learnt, the close matched, the pending
order's state kept.
-/

namespace NautilusCtrader

open Common OrderRecord

/-- The focus with other positions in its book. -/
def Focus.withPositions (positions : Dict ℤ Position) (f : Focus) : Focus :=
  { f with book := { f.book with positions } }

/-- The same of what a handler leaves. -/
def Handled.withPositions (positions : Dict ℤ Position) (h : Handled) : Handled :=
  { h with focus := h.focus.withPositions positions }

namespace VenueBook

/-! ## Handlers on a focus with other positions -/

section

variable {positions : Dict ℤ Position} {event : ProtoOAExecutionEvent} {order : ProtoOAOrder}

/-- Two parts that each read no other position read none together. -/
theorem withPositions_andThen {h h' : Handled} {next : Focus → Handled}
    (hh : h' = h.withPositions positions)
    (hnext : ∀ g : Focus, next (g.withPositions positions) = (next g).withPositions positions) :
    h'.andThen next = (h.andThen next).withPositions positions := by
  subst hh
  have hrecords : (h.withPositions positions).records = h.records := rfl
  unfold Handled.andThen
  rw [hrecords]
  cases h.records with
  | error failure => rfl
  | ok told =>
    dsimp only
    show Handled.mk (next (h.focus.withPositions positions)).focus
      ((next (h.focus.withPositions positions)).records.map (told ++ ·)) = _
    rw [hnext]
    rfl

/-- Taking over an event's state reads no other position. -/
theorem sync_withPositions (f : Focus) :
    sync event order (f.withPositions positions) = (sync event order f).withPositions positions := by
  obtain ⟨⟨⟩, p, stored⟩ := f
  unfold sync Focus.withPositions
  dsimp only
  split
  · rfl
  · split
    · rfl
    · split
      · rfl
      · rfl

/-- Nor does an opening. -/
theorem opened_withPositions (learnt : Bool) (f : Focus) :
    opened event order learnt (f.withPositions positions) =
      (opened event order learnt f).withPositions positions := by
  obtain ⟨b, p, stored⟩ := f
  have hsync (q : Position) : sync event order ⟨{ b with positions }, q, stored⟩ =
      (sync event order ⟨b, q, stored⟩).withPositions positions :=
    sync_withPositions ⟨b, q, stored⟩
  unfold opened Focus.withPositions
  dsimp only
  rw [hsync]
  rfl

/-- Nor does keeping an open order. -/
theorem keepOpenOrder_withPositions (known : Bool) (b : Book) :
    keepOpenOrder event order known { b with positions } =
      ({ (keepOpenOrder event order known b).1 with positions },
        (keepOpenOrder event order known b).2) := by
  obtain ⟨⟩ := b
  unfold keepOpenOrder
  dsimp only
  repeat' split
  all_goals rfl

/-- Nor does reporting an external order. -/
theorem reportExternal_withPositions (precision : ℕ) (reduceOnly : Bool) (fills : List Fill)
    (f : Focus) :
    reportExternal order precision reduceOnly fills (f.withPositions positions) =
      (reportExternal order precision reduceOnly fills f).withPositions positions := by
  unfold reportExternal
  dsimp only
  split
  · rfl
  · rfl

/-- Nor does `_external_event`. -/
theorem externalEvent_withPositions (env : Env) (precision : ℕ) (reduceOnly : Bool) (f : Focus) :
    externalEvent env event order precision reduceOnly (f.withPositions positions) =
      (externalEvent env event order precision reduceOnly f).withPositions positions := by
  obtain ⟨b, p, stored⟩ := f
  have hkept (known : Bool) : keepOpenOrder event order known { b with positions } =
      ({ (keepOpenOrder event order known b).1 with positions },
        (keepOpenOrder event order known b).2) := keepOpenOrder_withPositions known b
  unfold externalEvent Focus.withPositions
  dsimp only
  rw [hkept]
  generalize keepOpenOrder event order (order.orderId ∈ b.reported) b = kept
  obtain ⟨c, taken⟩ := kept
  dsimp only
  split
  · split
    · rfl
    · exact reportExternal_withPositions precision reduceOnly [] ⟨c, p, stored⟩
  · split
    · split
      · rfl
      · rename_i fill _
        split
        · rfl
        · exact reportExternal_withPositions precision reduceOnly [fill] ⟨c, p, stored⟩
    · split
      · rfl
      · split
        · split
          · rfl
          · split
            · rfl
            · rfl
        · split
          · rfl
          · rfl

/-- Nor does ending what a closed position leaves. -/
theorem endIfClosed_withPositions (asked : Bool) (f : Focus) :
    endIfClosed event asked (f.withPositions positions) =
      (endIfClosed event asked f).withPositions positions := by
  obtain ⟨⟨⟩, p, stored⟩ := f
  unfold endIfClosed Focus.withPositions
  dsimp only
  split
  · rfl
  · rfl

/-- Nor does what follows an opening. -/
theorem openedTail_withPositions (f : Focus) :
    openedTail event order (f.withPositions positions) =
      (openedTail event order f).withPositions positions :=
  withPositions_andThen rfl fun _ => endIfClosed_withPositions ..

/-- Nor does an event of another's entry. -/
theorem openedExternal_withPositions (env : Env) (precision : ℕ) (learnt : Bool) (f : Focus) :
    openedExternal env event order precision learnt (f.withPositions positions) =
      (openedExternal env event order precision learnt f).withPositions positions :=
  withPositions_andThen (externalEvent_withPositions ..) fun _ => rfl

/-- The entry's event, unless it ends the entry and drops its position. -/
theorem entryEvent_withPositions (hstands : endedEventKind event.executionType = none) (env : Env)
    (precision : ℕ) (f : Focus) :
    entryEvent env event order precision (f.withPositions positions) =
      (entryEvent env event order precision f).withPositions positions := by
  obtain ⟨⟨⟩, p, stored⟩ := f
  unfold entryEvent Focus.withPositions
  rw [hstands]
  dsimp only
  split
  · split
    · rfl
    · rfl
  · split
    · split
      · rfl
      · rfl
    · rfl

/-- Nor do the records of an opening. -/
theorem openingRecords_withPositions (hstands : endedEventKind event.executionType = none) (env : Env)
    (precision : ℕ) (learnt : Bool) (f : Focus) :
    openingRecords env event order precision learnt (f.withPositions positions) =
      (openingRecords env event order precision learnt f).withPositions positions := by
  unfold openingRecords
  by_cases hown : (f.position.ours && f.position.entryOrderId = some order.orderId) = true
  · rw [if_pos hown]
    exact (if_pos hown).trans (entryEvent_withPositions hstands env precision f)
  · rw [if_neg hown]
    exact (if_neg hown).trans (openedExternal_withPositions env precision learnt f)

/-- Nor does an opening event as a whole. -/
theorem openingOn_withPositions (hstands : endedEventKind event.executionType = none) (env : Env)
    (precision : ℕ) (f : Focus) :
    openingOn env event order precision (f.withPositions positions) =
      (openingOn env event order precision f).withPositions positions :=
  withPositions_andThen (withPositions_andThen (opened_withPositions ..)
    fun g => openingRecords_withPositions hstands env precision _ g) fun g => openedTail_withPositions g

/-- Nor does matching a closing order. -/
theorem matchClosing_withPositions (ops : Operations) (f : Focus) :
    matchClosing ops event order (f.withPositions positions) =
      ((matchClosing ops event order f).1.withPositions positions,
        (matchClosing ops event order f).2) := by
  obtain ⟨⟨⟩, p, stored⟩ := f
  unfold matchClosing Focus.withPositions
  dsimp only
  split
  · rfl
  · split
    · split
      · split
        · rfl
        · rfl
      · rfl
    · rfl

/-- Nor does a close of the node's. -/
theorem nodeClose_withPositions (env : Env) (closeId : String) (precision : ℕ) (f : Focus) :
    nodeClose env event order closeId precision (f.withPositions positions) =
      (nodeClose env event order closeId precision f).withPositions positions := by
  obtain ⟨⟨⟩, p, stored⟩ := f
  unfold nodeClose Focus.withPositions
  dsimp only
  split
  · rfl
  · split
    · split
      · rfl
      · rfl
    · split
      · rfl
      · rfl

/-- Nor does a closing event as a whole. -/
theorem closingOn_withPositions (env : Env) (ops : Operations) (precision : ℕ) (f : Focus) :
    closingOn env ops event order precision (f.withPositions positions) =
      (closingOn env ops event order precision f).withPositions positions := by
  unfold closingOn
  dsimp only
  rw [sync_withPositions, matchClosing_withPositions]
  refine withPositions_andThen (withPositions_andThen rfl fun g => ?_)
    fun g => endIfClosed_withPositions ..
  unfold closingRecords
  split
  · exact nodeClose_withPositions ..
  · exact withPositions_andThen (externalEvent_withPositions ..) fun _ => rfl

/-- Nor does a changed protection. -/
theorem protectiveChanged_withPositions (env : Env) (ops : Operations) (oldLevels : Levels)
    (f : Focus) :
    protectiveChanged env ops event order oldLevels (f.withPositions positions) =
      (protectiveChanged env ops event order oldLevels f).withPositions positions := by
  unfold protectiveChanged
  rw [sync_withPositions]
  rfl

/-- A position put back under its id takes the place of any other there. -/
theorem finish_withPositions {g : Focus} {x : ℤ} (hstored : g.stored = some x)
    (hpositions : ∀ p, positions.set x p = g.book.positions.set x p) :
    (g.withPositions positions).finish = g.finish := by
  unfold Focus.finish Focus.withPositions
  dsimp only
  rw [hstored]
  dsimp only
  rw [hpositions]

/-! ## What is written again alike -/

/-- Keeping an open order a second time changes nothing. -/
theorem keepOpenOrder_again (known : Bool) (b : Book) :
    keepOpenOrder event order known (keepOpenOrder event order known b).1 =
      keepOpenOrder event order known b := by
  have herase : (b.openOrders.erase order.orderId).erase order.orderId =
      b.openOrders.erase order.orderId := by
    apply Dict.ext_entries
    unfold Dict.erase
    dsimp only
    rw [List.filter_filter]
    simp only [Bool.and_self]
  generalize hkept : keepOpenOrder event order known b = kept
  unfold keepOpenOrder at hkept
  dsimp only at hkept
  split at hkept
  · rename_i hother
    subst hkept
    exact if_pos hother
  · rename_i hpending
    split at hkept
    · rename_i hends
      subst hkept
      refine (if_neg hpending).trans ((if_pos hends).trans ?_)
      rw [herase]
    · rename_i hstands
      split at hkept
      · rename_i hunknown
        subst hkept
        refine (if_neg hpending).trans ((if_neg hstands).trans ((if_pos hunknown).trans ?_))
        rw [Dict.set_set]
      · rename_i hknown
        split at hkept
        · rename_i hkind
          split at hkept
          · rename_i hnone
            subst hkept
            refine (if_neg hpending).trans ((if_neg hstands).trans ((if_neg hknown).trans
              ((if_pos hkind).trans ?_)))
            rw [hnone]
          · rename_i held hheld
            split at hkept
            · subst hkept
              refine (if_neg hpending).trans ((if_neg hstands).trans ((if_neg hknown).trans
                ((if_pos hkind).trans ?_)))
              rw [Dict.get?_set_self]
              dsimp only
              rw [if_pos le_rfl, Dict.set_set]
            · rename_i hnewer
              subst hkept
              refine (if_neg hpending).trans ((if_neg hstands).trans ((if_neg hknown).trans
                ((if_pos hkind).trans ?_)))
              rw [hheld]
              exact if_neg hnewer
        · rename_i hkind
          subst hkept
          exact (if_neg hpending).trans ((if_neg hstands).trans ((if_neg hknown).trans
            (if_neg hkind)))

/-- Nor does taking a state over a second time. -/
theorem syncState_again (p : Position) (state : ProtoOAPosition) (filledMs : Option ℤ) :
    syncState { syncState p state with entryFilledMs := filledMs } state =
      { syncState p state with entryFilledMs := filledMs } := by
  have hopened (first second : Option ℤ) : first.or (first.or second) = first.or second := by
    cases first <;> rfl
  unfold syncState
  dsimp only
  by_cases hold : state.utcLastUpdateTimestamp < p.updatedMs
  · rw [if_pos hold]
    dsimp only
    rw [if_pos hold, hopened]
  · rw [if_neg hold]
    dsimp only
    rw [if_neg (lt_irrefl _), hopened]

/-- A position whose event was synced before is left as it is. -/
theorem sync_again {f g : Focus}
    (hposition : g.position =
      { (sync event order f).position with entryFilledMs := g.position.entryFilledMs })
    (hdeals : g.book.syncedDeals = (sync event order f).book.syncedDeals) :
    sync event order g = g := by
  obtain ⟨b, p, stored⟩ := g
  dsimp only at hposition hdeals
  generalize p.entryFilledMs = filledMs at hposition
  subst hposition
  unfold sync at hdeals ⊢
  cases hstate : event.position? with
  | some state =>
    dsimp only
    rw [syncState_again]
  | none =>
    rw [hstate] at hdeals
    dsimp only at hdeals ⊢
    cases hdeal : event.deal? with
    | none => rfl
    | some deal =>
      rw [hdeal] at hdeals
      dsimp only at hdeals ⊢
      refine if_pos ?_
      rw [hdeals, Bool.or_eq_true, decide_eq_true_eq]
      split
      · rename_i hskip
        rwa [Bool.or_eq_true, decide_eq_true_eq] at hskip
      · exact .inr (Finset.mem_insert_self ..)

/-- Taking over an event's state accepts no entry. -/
theorem sync_entryAccepted (f : Focus) :
    (sync event order f).position.entryAccepted = f.position.entryAccepted := by
  unfold sync
  split
  · unfold syncState
    dsimp only
    split
    · rfl
    · rfl
  · split
    · rfl
    · dsimp only
      split
      · rfl
      · unfold syncDeal
        split
        · rfl
        · split
          · rfl
          · rfl

/-- Legs that were ended are ended. -/
theorem endLegs_of_ended {p q : Position} (hlegs : q.legs = (endLegs p).legs)
    (haccepted : q.entryAccepted = true) : endLegs q = q := by
  have hdone (leg : Option Leg) :
      (leg.map fun leg => { leg with alive := false }).map (fun leg => { leg with alive := false }) =
        leg.map fun leg => { leg with alive := false } := by
    cases leg <;> rfl
  have hsame : (endLegs q).legs = q.legs := by
    rw [hlegs]
    show ByLevel.mk _ _ = ByLevel.mk _ _
    rw [hlegs]
    exact congrArg₂ ByLevel.mk (hdone _) (hdone _)
  show { q with entryAccepted := true, legs := (endLegs q).legs } = q
  rw [hsame, ← haccepted]

/-- Stamping a fill changes the time of the entry's fill alone. -/
theorem stampFill_fields (event : ProtoOAExecutionEvent) (order : ProtoOAOrder) (wasOpen : Bool)
    (p : Position) :
    ∃ filledMs, stampFill event order wasOpen p = { p with entryFilledMs := filledMs } := by
  unfold stampFill
  split
  · exact ⟨_, rfl⟩
  · exact ⟨p.entryFilledMs, rfl⟩

/-- What the first part of `_opening` does to a position it has been run on. -/
theorem opened_again {f g : Focus} (learnt : Bool)
    (hposition : g.position = (opened event order learnt f).focus.position)
    (hended : g.book.endedEntries = f.book.endedEntries)
    (hdeals : g.book.syncedDeals = (opened event order learnt f).focus.book.syncedDeals) :
    opened event order false g =
      { g with position := stampFill event order g.position.isOpen g.position }.tell
        (if order.orderId ∈ f.book.endedEntries then
          [.notice (.entryFilledAfterEnd order.orderId)] else []) := by
  let learned := (learn order learnt (order.orderId ∈ f.book.endedEntries) f.position).1
  let synced := sync event order { f with position := learned }
  have hstamped : g.position = stampFill event order learned.isOpen synced.position := hposition
  obtain ⟨filledMs, hfilled⟩ := stampFill_fields event order learned.isOpen
    synced.position
  have hfields : g.position = { synced.position with entryFilledMs := g.position.entryFilledMs } := by
    rw [hstamped, hfilled]
  -- the book has the deal already, so a second sync changes nothing
  have hsync : sync event order g = g := sync_again hfields hdeals
  have hlearned : (learn order false (order.orderId ∈ g.book.endedEntries) g.position).1 =
      g.position := by
    rw [hended]
    unfold learn
    -- the legs of an entry that ended are ended again, which changes none
    by_cases hin : order.orderId ∈ f.book.endedEntries
    · rw [decide_eq_true hin]
      have hlegs : (endLegs (learn order learnt false f.position).1).legs = learned.legs := by
        show _ = (learn order learnt (decide (order.orderId ∈ f.book.endedEntries)) f.position).1.legs
        rw [decide_eq_true hin]
        rfl
      refine endLegs_of_ended (p := (learn order learnt false f.position).1) ?_ ?_
      · rw [hlegs, hfields]
        exact (sync_legs event order { f with position := learned }).legs
      · rw [hfields]
        show synced.position.entryAccepted = true
        rw [sync_entryAccepted]
        show (learn order learnt (decide (order.orderId ∈ f.book.endedEntries))
          f.position).1.entryAccepted = true
        rw [decide_eq_true hin]
        rfl
    · rw [decide_eq_false hin]
      rfl
  have hreduced : unnamedReduction event order g.position
      (stampFill event order g.position.isOpen g.position) = [] := by
    obtain ⟨stampedMs, hstamp⟩ := stampFill_fields event order
      g.position.isOpen g.position
    rw [hstamp]
    unfold unnamedReduction
    refine if_neg ?_
    simp only [lt_self_iff_false, decide_false, Bool.or_false, Bool.and_not_self, Bool.and_false,
      Bool.false_eq_true, not_false_eq_true]
  have htold : (learn order false (order.orderId ∈ g.book.endedEntries) g.position).2 =
      if order.orderId ∈ f.book.endedEntries then
        [.notice (.entryFilledAfterEnd order.orderId)] else [] := by
    rw [hended]
    unfold learn
    dsimp only
    by_cases hin : order.orderId ∈ f.book.endedEntries
    · rw [if_pos hin, if_pos (decide_eq_true hin)]
      rfl
    · rw [if_neg hin, decide_eq_false hin]
      rfl
  have hsame : sync event order { g with position := g.position } = g := hsync
  unfold opened
  dsimp only
  rw [hlearned, htold, hsame, hreduced, List.append_nil]

/-- An entry learnt, or not, by an event is not learnt by it again. -/
theorem takesEntry_again {f g : Focus}
    (hposition : g.position =
      (opened event order (takesEntry event order f.position) f).focus.position) :
    takesEntry event order g.position = false := by
  generalize hlearnt : takesEntry event order f.position = learnt at hposition
  cases learnt with
  | true =>
    -- learnt once, the order is the position's entry
    have hentry : g.position.entryOrderId = some order.orderId := by
      rw [hposition]
      exact opened_entry event order f
    unfold takesEntry
    rw [hentry]
    rfl
  | false =>
    -- not learnt, the opening time that decides it is the same: the event's own, or one left in place
    let learned := (learn order false (order.orderId ∈ f.book.endedEntries) f.position).1
    have hentry : g.position.entryOrderId = f.position.entryOrderId := by
      rw [hposition]
      show (stampFill ..).entryOrderId = _
      rw [(stampFill_legs ..).entryOrderId, (sync_legs ..).entryOrderId]
      unfold learn
      dsimp only
      split
      · rfl
      · rfl
    have hraises : raises g.position event order = raises f.position event order := by
      have hopened : (event.position?.bind openedMs).or g.position.openedMs =
          (event.position?.bind openedMs).or f.position.openedMs := by
        obtain ⟨filledMs, hfilled⟩ := stampFill_fields event order learned.isOpen
          (sync event order { f with position := learned }).position
        have hlearned : learned.openedMs = f.position.openedMs := by
          show (learn order false (order.orderId ∈ f.book.endedEntries) f.position).1.openedMs = _
          unfold learn
          dsimp only
          split
          · rfl
          · rfl
        have hg : g.position.openedMs =
            (sync event order { f with position := learned }).position.openedMs := by
          rw [hposition]
          show (stampFill event order learned.isOpen
            (sync event order { f with position := learned }).position).openedMs = _
          rw [hfilled]
        rw [hg, ← hlearned]
        unfold sync
        cases hstate : event.position? with
        | some state =>
          have hsynced : (syncState learned state).openedMs =
              ((openedMs state).filter (· ≠ 0)).or learned.openedMs := by
            unfold syncState
            dsimp only
            split
            · rfl
            · rfl
          show ((openedMs state)).or (syncState learned state).openedMs =
            (openedMs state).or learned.openedMs
          rw [hsynced]
          cases openedMs state with
          | some ms => rfl
          | none => rfl
        | none =>
          dsimp only
          split
          · rfl
          · split
            · rfl
            · unfold syncDeal
              dsimp only
              split
              · rfl
              · split
                · rfl
                · rfl
      unfold raises
      rw [hopened]
    unfold takesEntry at hlearnt ⊢
    rw [hentry, hraises]
    exact hlearnt

/-- After the order is kept, `_external_event` does what it did before. -/
theorem externalEvent_again (env : Env) (precision : ℕ) (reduceOnly : Bool) (f : Focus) :
    externalEvent env event order precision reduceOnly
        { f with book := (keepOpenOrder event order (order.orderId ∈ f.book.reported) f.book).1 } =
      externalEvent env event order precision reduceOnly f := by
  have hreported := (keepOpenOrder_unloaded event order (order.orderId ∈ f.book.reported) f.book).2
  unfold externalEvent
  dsimp only
  rw [hreported, keepOpenOrder_again]

end

end VenueBook

end NautilusCtrader
