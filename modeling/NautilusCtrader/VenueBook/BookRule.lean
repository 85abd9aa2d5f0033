import NautilusCtrader.VenueBook.Runs

/-!
# What an event does to the book beside its positions

Handlers change the rest of the book by a few kinds of step. `BookRule` lists them: a relation that each
kind of step of an event keeps holds between the book an event finds and the one its handling leaves,
whichever route the event takes and whether or not it raises.
-/

namespace NautilusCtrader

open Common

namespace VenueBook

/-- The parts of the book a handler never reads back as the book's own: positions, synced deals, ended
entries, accepted closes. -/
structure SameOrders (b b' : Book) : Prop where
  closes : b'.closes = b.closes
  closePositions : b'.closePositions = b.closePositions
  unloadedOrders : b'.unloadedOrders = b.unloadedOrders
  reported : b'.reported = b.reported
  openOrders : b'.openOrders = b.openOrders

/-- A book holds its own orders. -/
theorem SameOrders.refl (b : Book) : SameOrders b b := ⟨rfl, rfl, rfl, rfl, rfl⟩

/-- What leaves the orders twice leaves them. -/
theorem SameOrders.trans {b b' b'' : Book} (h : SameOrders b b') (h' : SameOrders b' b'') :
    SameOrders b b'' :=
  ⟨h'.closes.trans h.closes, h'.closePositions.trans h.closePositions,
    h'.unloadedOrders.trans h.unloadedOrders, h'.reported.trans h.reported,
    h'.openOrders.trans h.openOrders⟩

/-- A relation that every kind of step of an event's handling keeps. -/
structure BookRule (event : ProtoOAExecutionEvent) (order : ProtoOAOrder) (R : Book → Book → Prop) :
    Prop where
  trans : ∀ {b b' b''}, R b b' → R b' b'' → R b b''
  same : ∀ {b b'}, SameOrders b b' → R b b'
  keeps : ∀ b known, R b (keepOpenOrder event order known b).1
  reports : ∀ b, R b { b with reported := insert order.orderId b.reported }
  takes : ∀ b candidate positionId, b.closes.get? order.orderId = none →
    candidate ∉ b.closes.values →
    R b { b with
      closes := b.closes.set order.orderId candidate
      closePositions := b.closePositions.set order.orderId positionId }

variable {event : ProtoOAExecutionEvent} {order : ProtoOAOrder} {R : Book → Book → Prop}

/-- A rule holds where the orders are left as they are. -/
theorem BookRule.refl (h : BookRule event order R) (b : Book) : R b b := h.same (.refl b)

/-! ## Steps that change none of the orders -/

/-- A sync touches the position. -/
theorem sync_sameOrders (event : ProtoOAExecutionEvent) (order : ProtoOAOrder) (f : Focus) :
    SameOrders f.book (sync event order f).book := by
  unfold sync
  split
  · exact .refl _
  · split
    · exact .refl _
    · dsimp only
      split
      · exact .refl _
      · exact ⟨rfl, rfl, rfl, rfl, rfl⟩

/-- Finding the position touches no order. -/
theorem positionFor_sameOrders (b : Book) (event : ProtoOAExecutionEvent) (order : ProtoOAOrder) :
    SameOrders b (positionFor b event order).book := by
  unfold positionFor
  split
  · exact .refl b
  · split
    · exact .refl b
    · exact ⟨rfl, rfl, rfl, rfl, rfl⟩

/-- Nor does putting it back. -/
theorem finish_sameOrders (f : Focus) : SameOrders f.book f.finish := by
  unfold Focus.finish
  split
  · exact ⟨rfl, rfl, rfl, rfl, rfl⟩
  · exact .refl _

/-- Nor does dropping its entry. -/
theorem dropEntry_sameOrders (order : ProtoOAOrder) (f : Focus) :
    SameOrders f.book (dropEntry order f).book := by
  unfold dropEntry
  dsimp only
  split
  · exact ⟨rfl, rfl, rfl, rfl, rfl⟩
  · exact ⟨rfl, rfl, rfl, rfl, rfl⟩

/-- Nor does marking the event. -/
theorem markApplied_sameOrders (event : ProtoOAExecutionEvent) (order : ProtoOAOrder) (b : Book) :
    SameOrders b (markApplied event order b) := by
  have hmark (b : Book) : SameOrders b (markDeal event b) := by
    unfold markDeal
    split
    · split
      · exact ⟨rfl, rfl, rfl, rfl, rfl⟩
      · exact .refl _
    · exact .refl _
  have hkeep (b : Book) : SameOrders b (releaseKeep event order b) := by
    unfold releaseKeep
    dsimp only
    split
    · split
      · split
        · exact ⟨rfl, rfl, rfl, rfl, rfl⟩
        · exact .refl _
      · exact ⟨rfl, rfl, rfl, rfl, rfl⟩
    · exact .refl _
  have hseen : SameOrders b { b with seen := insert (keyOf event order) b.seen } :=
    ⟨rfl, rfl, rfl, rfl, rfl⟩
  exact hseen.trans ((hmark _).trans (hkeep _))

/-- Nor do two handlers that touch none. -/
theorem sameOrders_andThen {f : Focus} {h : Handled} {next : Focus → Handled}
    (hh : SameOrders f.book h.focus.book)
    (hnext : ∀ g, SameOrders g.book (next g).focus.book) :
    SameOrders f.book (h.andThen next).focus.book := by
  unfold Handled.andThen
  split
  · exact hh
  · exact hh.trans (hnext _)

/-- The end of a position touches no order. -/
theorem endIfClosed_sameOrders (event : ProtoOAExecutionEvent) (asked : Bool) (f : Focus) :
    SameOrders f.book (endIfClosed event asked f).focus.book := by
  unfold endIfClosed
  split
  · exact .refl _
  · exact .refl _

/-- Nor does an event of its entry. -/
theorem entryEvent_sameOrders (env : Env) (event : ProtoOAExecutionEvent) (order : ProtoOAOrder)
    (precision : ℕ) (f : Focus) :
    SameOrders f.book (entryEvent env event order precision f).focus.book := by
  unfold entryEvent
  dsimp only
  split
  · split
    · exact .refl _
    · exact .refl _
  · split
    · split
      · exact .refl _
      · exact .refl _
    · split
      · exact .refl _
      · rename_i ended _
        split
        · exact dropEntry_sameOrders order
            { f with position := (endEntryLegs ended order f.position).1 }
        · exact .refl _

/-- Nor does opening it. -/
theorem opened_sameOrders (event : ProtoOAExecutionEvent) (order : ProtoOAOrder) (learnt : Bool)
    (f : Focus) : SameOrders f.book (opened event order learnt f).focus.book :=
  sync_sameOrders event order
    { f with position := (learn order learnt (order.orderId ∈ f.book.endedEntries) f.position).1 }

/-- Nor does what follows its opening. -/
theorem openedTail_sameOrders (event : ProtoOAExecutionEvent) (order : ProtoOAOrder) (f : Focus) :
    SameOrders f.book (openedTail event order f).focus.book :=
  sameOrders_andThen (.refl _) fun g => endIfClosed_sameOrders event _ g

/-- Nor does a close of the node. -/
theorem nodeClose_sameOrders (env : Env) (event : ProtoOAExecutionEvent) (order : ProtoOAOrder)
    (closeId : String) (precision : ℕ) (f : Focus) :
    SameOrders f.book (nodeClose env event order closeId precision f).focus.book := by
  unfold nodeClose
  dsimp only
  split
  · exact ⟨rfl, rfl, rfl, rfl, rfl⟩
  · split
    · split
      · exact .refl _
      · exact ⟨rfl, rfl, rfl, rfl, rfl⟩
    · split
      · exact .refl _
      · exact .refl _

/-! ## The handlers -/

/-- A rule holds of two handlers of which it holds. -/
theorem rule_andThen (hR : BookRule event order R) {f : Focus} {h : Handled}
    {next : Focus → Handled} (hh : R f.book h.focus.book)
    (hnext : ∀ g, R g.book (next g).focus.book) : R f.book (h.andThen next).focus.book := by
  unfold Handled.andThen
  split
  · exact hh
  · exact hR.trans hh (hnext _)

/-- An external report marks its order reported. -/
theorem rule_reportExternal (hR : BookRule event order R) (precision : ℕ) (reduceOnly : Bool)
    (fills : List Fill) (f : Focus) :
    R f.book (reportExternal order precision reduceOnly fills f).focus.book := by
  unfold reportExternal
  dsimp only
  split
  · exact hR.reports f.book
  · exact hR.reports f.book

/-- An external event keeps its order or forgets it. -/
theorem rule_externalEvent (hR : BookRule event order R) (env : Env) (precision : ℕ)
    (reduceOnly : Bool) (f : Focus) :
    R f.book (externalEvent env event order precision reduceOnly f).focus.book := by
  have hkeeps := hR.keeps f.book (order.orderId ∈ f.book.reported)
  have hreport (fills : List Fill) (g : Focus) (hg : R f.book g.book) :
      R f.book (reportExternal order precision reduceOnly fills g).focus.book :=
    hR.trans hg (rule_reportExternal hR precision reduceOnly fills g)
  unfold externalEvent
  dsimp only
  split
  · split
    · exact hkeeps
    · exact hreport _ _ hkeeps
  · split
    · split
      · exact hkeeps
      · split
        · exact hkeeps
        · exact hreport _ _ hkeeps
    · split
      · exact hkeeps
      · split
        · split
          · exact hkeeps
          · split
            · exact hkeeps
            · exact hkeeps
        · split
          · exact hkeeps
          · exact hkeeps

/-- An opening event. -/
theorem rule_openingOn (hR : BookRule event order R) (env : Env) (precision : ℕ) (f : Focus) :
    R f.book (openingOn env event order precision f).focus.book := by
  unfold openingOn
  dsimp only
  refine rule_andThen hR (rule_andThen hR (hR.same (opened_sameOrders ..)) fun g => ?_)
    fun g => hR.same (openedTail_sameOrders ..)
  unfold openingRecords
  split
  · exact hR.same (entryEvent_sameOrders ..)
  · exact rule_andThen hR (rule_externalEvent hR ..) fun k => hR.refl _

/-- A level that was hit is taken off its position. -/
theorem rule_takeTrigger (hR : BookRule event order R) (deal : ProtoOADeal) (fill : Fill)
    (level : Option Level) (levels : Levels) (f : Focus) :
    R f.book (takeTrigger order deal fill level levels f).focus.book := by
  unfold takeTrigger
  dsimp only
  split
  · exact hR.refl _
  · exact hR.refl _
  · split
    · exact hR.refl _
    · exact hR.reports f.book

/-- A triggered protective order. -/
theorem rule_triggered (hR : BookRule event order R) (env : Env) (precision : ℕ) (f : Focus) :
    R f.book (triggered env event order precision f).focus.book := by
  unfold triggered
  split
  · exact hR.refl _
  · split
    · exact hR.refl _
    · refine rule_andThen hR (rule_andThen hR ?_ fun g => rule_takeTrigger hR ..)
        fun g => hR.same (endIfClosed_sameOrders ..)
      exact hR.same (sync_sameOrders event order f)

/-- A protective event. -/
theorem rule_protectiveOn (hR : BookRule event order R) (env : Env) (ops : Operations)
    (precision : ℕ) (f : Focus) :
    R f.book (protectiveOn env ops event order precision f).focus.book := by
  have hchanged (oldLevels : Levels) (g : Focus) :
      R g.book (protectiveChanged env ops event order oldLevels g).focus.book :=
    hR.same (sync_sameOrders event order g)
  unfold protectiveOn
  dsimp only
  split
  · exact rule_andThen hR (hR.refl f.book) fun g => rule_triggered hR ..
  · split
    · exact hR.refl _
    · split
      · exact hR.refl _
      · split
        · split
          · exact hR.refl _
          · rename_i stated _
            exact hchanged f.position.levels
              { f with position := setProtective order stated f.position }
        · split
          · exact hchanged f.position.levels { f with position := cancelProtective order f.position }
          · exact hR.refl _

/-- A closing order is matched to a close. -/
theorem rule_matchClosing (hR : BookRule event order R) (ops : Operations) (f : Focus) :
    R f.book (matchClosing ops event order f).1.book := by
  unfold matchClosing
  split
  · exact hR.refl _
  · rename_i hnew
    split
    · split
      · rename_i candidate _
        split
        · exact hR.refl _
        · rename_i hunclaimed
          exact hR.takes f.book candidate _ hnew hunclaimed
      · exact hR.refl _
    · exact hR.refl _

/-- A closing event. -/
theorem rule_closingOn (hR : BookRule event order R) (env : Env) (ops : Operations) (precision : ℕ)
    (f : Focus) : R f.book (closingOn env ops event order precision f).focus.book := by
  unfold closingOn
  dsimp only
  refine rule_andThen hR (rule_andThen hR ?_ fun g => ?_) fun g => hR.same (endIfClosed_sameOrders ..)
  · exact hR.trans (hR.same (sync_sameOrders event order f)) (rule_matchClosing hR ops _)
  · unfold closingRecords
    split
    · exact hR.same (nodeClose_sameOrders ..)
    · exact rule_andThen hR (rule_externalEvent hR ..) fun k => hR.refl _

/-- What every kind of step keeps, the handling of an event on a loaded symbol keeps. -/
theorem rule_handleLoaded (hR : BookRule event order R) (env : Env) (ops : Operations) (b : Book)
    (precision : ℕ) : R b (handleLoaded env ops b event order precision).focus.finish := by
  refine hR.trans ?_ (hR.same (finish_sameOrders _))
  have hfor := hR.same (positionFor_sameOrders b event order)
  unfold handleLoaded
  dsimp only
  split
  · exact hR.trans hfor (rule_protectiveOn hR ..)
  · split
    · exact hR.trans hfor (rule_closingOn hR ..)
    · split
      · exact hR.refl b
      · exact hR.trans hfor (rule_openingOn hR ..)

end VenueBook

end NautilusCtrader
