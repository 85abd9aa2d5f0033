import NautilusCtrader.VenueBook.Attempts

/-!
# A second attempt at an opening order's event

The first attempt learns the entry and takes the event's state, and tells nothing of either. On a
position the book holds the second finds both done: it misses their notices, the legs of levels seen
before the entry, and the time of the entry's fill where a later fill closed the position.
-/

namespace NautilusCtrader

open Common OrderRecord

namespace VenueBook

variable {env : Env} {ops : Operations} {event : ProtoOAExecutionEvent} {order : ProtoOAOrder}
  {precision : ℕ} {f g : Focus} {failure : Failure}

/-! ## Opening orders -/

/-- Whether the state an event carries is taken and closes the position. -/
def statesClosed (event : ProtoOAExecutionEvent) (p : Position) : Bool :=
  event.position?.any fun state =>
    p.updatedMs ≤ state.utcLastUpdateTimestamp && state.positionStatus ≠ .open

/-- Whether the state an event carries is taken and leaves less of the position. -/
def statesLess (event : ProtoOAExecutionEvent) (p : Position) : Bool :=
  event.position?.any fun state =>
    p.updatedMs ≤ state.utcLastUpdateTimestamp &&
      (state.positionStatus ≠ .open || state.tradeData.volume < p.volume)

/-- An opening order's event closes or reduces an open position only by the state it carries. -/
theorem sync_opening (f : Focus) (hclosing : order.closingOrder = false) (hopen : f.position.isOpen = true) :
    (sync event order f).position.isOpen = !statesClosed event f.position ∧
      (!(sync event order f).position.isOpen ||
        (sync event order f).position.volume < f.position.volume) =
        statesLess event f.position := by
  cases hstate : event.position? with
  | some state =>
    have hsynced := held_sync hstate order f
    unfold statesClosed statesLess
    rw [hstate]
    by_cases hold : state.utcLastUpdateTimestamp < f.position.updatedMs
    · rw [show afterState f.position.held state = f.position.held from if_pos hold] at hsynced
      have hisOpen : (sync event order f).position.isOpen = f.position.isOpen :=
        congrArg HeldState.isOpen hsynced
      have hvolume : (sync event order f).position.volume = f.position.volume :=
        congrArg HeldState.volume hsynced
      simp [hisOpen, hvolume, hopen, hold]
    · rw [show afterState f.position.held state = stateOf state from if_neg hold] at hsynced
      have hisOpen : (sync event order f).position.isOpen =
          decide (state.positionStatus = .open) := congrArg HeldState.isOpen hsynced
      have hvolume : (sync event order f).position.volume = state.tradeData.volume :=
        congrArg HeldState.volume hsynced
      simp [hisOpen, hvolume, not_lt.mp hold]
  | none =>
    have hsynced : (sync event order f).position.isOpen = true ∧
        f.position.volume ≤ (sync event order f).position.volume := by
      unfold sync
      rw [hstate]
      dsimp only
      split
      · exact ⟨hopen, le_rfl⟩
      · split
        · exact ⟨hopen, le_rfl⟩
        · unfold syncDeal
          rw [hclosing]
          exact ⟨rfl, Nat.le_add_right ..⟩
    simp [statesClosed, statesLess, hstate, hsynced.1, hsynced.2]

/-- Whether an opening order is the entry of the position once the event is taken. -/
def namesEntry (event : ProtoOAExecutionEvent) (order : ProtoOAOrder) (p : Position) : Bool :=
  takesEntry event order p || p.entryOrderId = some order.orderId

/-- Whether it is the entry of one of the node's positions. -/
def nodesEntry (event : ProtoOAExecutionEvent) (order : ProtoOAOrder) (p : Position) : Bool :=
  namesEntry event order p &&
    (p.ours || takesEntry event order p && (parseLabel order.tradeData.label).isSome)

/-- Whether learning the entry tells that its legs cannot be read. -/
def tellsUnreadable (event : ProtoOAExecutionEvent) (order : ProtoOAOrder) (p : Position) : Bool :=
  takesEntry event order p && (parseLabel order.tradeData.label).isSome &&
    (parseComment order.tradeData.comment).isNone

/-- Whether an opening order's event tells of a close that no event names. -/
def tellsReduction (event : ProtoOAExecutionEvent) (order : ProtoOAOrder) (p : Position) : Bool :=
  isFill event.executionType && event.isServerEvent && !order.isStopOut && p.isOpen &&
    statesLess event p

/-- Whether the fill that closed the position is taken for the entry's first by a second attempt. -/
def stampsAgain (event : ProtoOAExecutionEvent) (order : ProtoOAOrder) (p : Position) : Bool :=
  isFill event.executionType && p.isOpen && statesClosed event p && namesEntry event order p &&
    p.entryFilledMs ≠ some event.deal.executionTimestamp

/-- The entry known after learning. -/
theorem learn_entryOrderId (learnt ended : Bool) (p : Position) :
    (learn order learnt ended p).1.entryOrderId =
      if learnt then some order.orderId else p.entryOrderId := by
  cases learnt with
  | true =>
    rw [learn_entry]
    rfl
  | false =>
    unfold learn
    dsimp only
    split <;> rfl

/-- The entry known after opening. -/
theorem openedFocus_entry : (openedFocus event order f).position.entryOrderId =
    if takesEntry event order f.position then some order.orderId else f.position.entryOrderId := by
  show (stampFill ..).entryOrderId = _
  rw [(stampFill_legs ..).entryOrderId, (sync_legs ..).entryOrderId]
  exact learn_entryOrderId ..

/-- The client order id known after opening. -/
theorem openedFocus_client : (openedFocus event order f).position.entryClientOrderId =
    if takesEntry event order f.position then
      (parseLabel order.tradeData.label).or f.position.entryClientOrderId
    else f.position.entryClientOrderId := by
  unfold openedFocus
  cases takesEntry event order f.position with
  | true => exact opened_client ..
  | false =>
    show (stampFill ..).entryClientOrderId = _
    rw [(stampFill_legs ..).entryClientOrderId, (sync_legs ..).entryClientOrderId]
    unfold learn
    dsimp only
    split <;> rfl

/-- The order opens the node's own entry just if it is that entry's. -/
theorem openedFocus_own : ((openedFocus event order f).position.ours &&
    (openedFocus event order f).position.entryOrderId = some order.orderId) =
      nodesEntry event order f.position := by
  unfold nodesEntry namesEntry Position.ours
  rw [openedFocus_entry, openedFocus_client]
  cases takesEntry event order f.position with
  | true =>
    simp only [if_true, decide_true, Bool.and_true, Bool.true_or, Bool.true_and]
    cases parseLabel order.tradeData.label with
    | some label => simp
    | none => simp
  | false => simp [Bool.and_comm]

/-- Whether an event states a close is read off what is held. -/
theorem statesClosed_of_held {p q : Position} (h : q.held = p.held) :
    statesClosed event q = statesClosed event p := by
  have hms : q.updatedMs = p.updatedMs := congrArg HeldState.updatedMs h
  unfold statesClosed
  rw [hms]

/-- So is whether it states less. -/
theorem statesLess_of_held {p q : Position} (h : q.held = p.held) :
    statesLess event q = statesLess event p := by
  have hms : q.updatedMs = p.updatedMs := congrArg HeldState.updatedMs h
  have hvolume : q.volume = p.volume := congrArg HeldState.volume h
  unfold statesLess
  rw [hms, hvolume]

/-- The position of an opening order's event once its state is taken. -/
theorem opened_held (hclosing : order.closingOrder = false) (learnt : Bool)
    (hopen : f.position.isOpen = true) :
    (opened event order learnt f).focus.position.isOpen = !statesClosed event f.position ∧
      (!(opened event order learnt f).focus.position.isOpen ||
        (opened event order learnt f).focus.position.volume < f.position.volume) =
        statesLess event f.position := by
  let learned := (learn order learnt (order.orderId ∈ f.book.endedEntries) f.position).1
  have hlearned : learned.held = f.position.held := held_learn ..
  have hisOpen : learned.isOpen = f.position.isOpen := congrArg HeldState.isOpen hlearned
  have hvolume : learned.volume = f.position.volume := congrArg HeldState.volume hlearned
  obtain ⟨filledMs, hstamp⟩ := stampFill_fields event order learned.isOpen
    (sync event order { f with position := learned }).position
  have hposition : (opened event order learnt f).focus.position =
      { (sync event order { f with position := learned }).position with entryFilledMs := filledMs } :=
    hstamp
  have hsync : (sync event order { f with position := learned }).position.isOpen =
        !statesClosed event learned ∧
      (!(sync event order { f with position := learned }).position.isOpen ||
        (sync event order { f with position := learned }).position.volume < learned.volume) =
        statesLess event learned :=
    sync_opening { f with position := learned } hclosing (hisOpen.trans hopen)
  rw [hposition]
  rw [statesClosed_of_held hlearned, statesLess_of_held hlearned, hvolume] at hsync
  exact hsync

/-- What the entry's learning and the state's taking tell. -/
theorem opened_told (hclosing : order.closingOrder = false) :
    (opened event order (takesEntry event order f.position) f).records = .ok
      ((if tellsUnreadable event order f.position then
          [.notice (.legsUnreadable f.position.positionId)] else []) ++
        (if order.orderId ∈ f.book.endedEntries then
          [.notice (.entryFilledAfterEnd order.orderId)] else []) ++
        if tellsReduction event order f.position then
          [unnamedClose (openedFocus event order f).position event.deal] else []) := by
  -- adopting tells only of a label or comment that does not parse
  have hadopted : (if takesEntry event order f.position then adopt f.position order false ∅
      else (f.position, [])).2 = if tellsUnreadable event order f.position then
        [.notice (.legsUnreadable f.position.positionId)] else [] := by
    unfold tellsUnreadable
    cases takesEntry event order f.position with
    | false => rfl
    | true =>
      unfold adopt
      dsimp only
      cases parseLabel order.tradeData.label with
      | none => rfl
      | some label =>
        cases parseComment order.tradeData.comment with
        | none => rfl
        | some ids => rfl
  -- learning leaves the volume, and with it whether the reduction is told
  have hreduced (learnt : Bool) : unnamedReduction event order
      (learn order learnt (order.orderId ∈ f.book.endedEntries) f.position).1
      (opened event order learnt f).focus.position =
        if tellsReduction event order f.position then
          [unnamedClose (opened event order learnt f).focus.position event.deal] else [] := by
    have hlearned := held_learn order learnt (order.orderId ∈ f.book.endedEntries) f.position
    have hisOpen : (learn order learnt (order.orderId ∈ f.book.endedEntries) f.position).1.isOpen =
        f.position.isOpen := congrArg HeldState.isOpen hlearned
    have hvolume : (learn order learnt (order.orderId ∈ f.book.endedEntries) f.position).1.volume =
        f.position.volume := congrArg HeldState.volume hlearned
    unfold unnamedReduction tellsReduction
    rw [hisOpen, hvolume]
    cases hopen : f.position.isOpen with
    | false => simp
    | true =>
      rw [(opened_held hclosing learnt hopen).2]
      simp
  show Except.ok ((_ ++ _) ++ unnamedReduction event order _
    (opened event order (takesEntry event order f.position) f).focus.position) = _
  rw [hreduced, hadopted]
  simp only [decide_eq_true_eq]
  rfl

/-- Learning an entry stamps no fill. -/
theorem learn_filledMs (learnt ended : Bool) (p : Position) :
    (learn order learnt ended p).1.entryFilledMs = p.entryFilledMs := by
  have hadopted : (if learnt then adopt p order false ∅ else (p, [])).1.entryFilledMs =
      p.entryFilledMs := by
    split
    · unfold adopt
      dsimp only
      split
      · rfl
      · split <;> rfl
    · rfl
  unfold learn
  dsimp only
  split
  · exact hadopted
  · exact hadopted

/-- Nor does a sync. -/
theorem sync_filledMs : (sync event order f).position.entryFilledMs = f.position.entryFilledMs :=
  (sync_keeps event order f).2

/-- An event names the entry just if its order is the entry afterwards. -/
theorem namesEntry_iff : namesEntry event order f.position = true ↔
    (openedFocus event order f).position.entryOrderId = some order.orderId := by
  unfold namesEntry
  rw [openedFocus_entry]
  cases takesEntry event order f.position with
  | true => simp
  | false => simp

/-- The position an opening order's event leaves is stamped once more only with the time it has, unless
the fill closed the position. -/
theorem stampFill_again (hclosing : order.closingOrder = false) :
    (stampsAgain event order f.position = false →
      stampFill event order (openedFocus event order f).position.isOpen
        (openedFocus event order f).position = (openedFocus event order f).position) ∧
    (stampsAgain event order f.position = true →
      (stampFill event order (openedFocus event order f).position.isOpen
        (openedFocus event order f).position).entryFilledMs ≠
          (openedFocus event order f).position.entryFilledMs) := by
  let learned := (learn order (takesEntry event order f.position)
    (order.orderId ∈ f.book.endedEntries) f.position).1
  let synced := (sync event order { f with position := learned }).position
  have hposition : (openedFocus event order f).position =
      stampFill event order learned.isOpen synced := rfl
  have hisOpen : learned.isOpen = f.position.isOpen := congrArg HeldState.isOpen (held_learn ..)
  cases hopen : f.position.isOpen with
  | false =>
    -- a position that was closed is stamped by both attempts, with one time, or by none
    rw [hisOpen, hopen] at hposition
    constructor
    · intro _
      rw [hposition]
      unfold stampFill
      by_cases hfill : (isFill event.executionType && !false &&
          decide (synced.entryOrderId = some order.orderId)) = true
      · rw [if_pos hfill]
        split <;> rfl
      · rw [if_neg hfill]
        refine if_neg fun hagain => hfill ?_
        simp only [Bool.and_eq_true] at hagain ⊢
        exact ⟨⟨hagain.1.1, rfl⟩, hagain.2⟩
    · intro hstamps
      simp [stampsAgain, hopen] at hstamps
  | true =>
    -- one that was open is stamped by the second only, where the fill closed it
    have hsame : (openedFocus event order f).position = synced := by
      rw [hposition, hisOpen, hopen]
      unfold stampFill
      rw [Bool.not_true, Bool.and_false, Bool.false_and]
      rfl
    have hclosed : (openedFocus event order f).position.isOpen = !statesClosed event f.position :=
      (opened_held hclosing _ hopen).1
    have hfilledMs : (openedFocus event order f).position.entryFilledMs =
        f.position.entryFilledMs := by
      rw [hsame]
      exact sync_filledMs.trans (learn_filledMs ..)
    have hnames : namesEntry event order f.position = true ↔
        (openedFocus event order f).position.entryOrderId = some order.orderId := namesEntry_iff
    generalize (openedFocus event order f).position = q at hclosed hfilledMs hnames
    have hcond : (isFill event.executionType && !q.isOpen &&
        decide (q.entryOrderId = some order.orderId)) =
        (isFill event.executionType && f.position.isOpen && statesClosed event f.position &&
          namesEntry event order f.position) := by
      rw [hopen, hclosed, Bool.not_not, Bool.and_true]
      congr 1
      rw [Bool.eq_iff_iff, decide_eq_true_eq]
      exact hnames.symm
    unfold stampsAgain stampFill
    rw [hcond]
    cases (isFill event.executionType && f.position.isOpen && statesClosed event f.position &&
      namesEntry event order f.position) with
    | false => exact ⟨fun _ => rfl, fun h => by cases h⟩
    | true =>
      rw [← hfilledMs]
      simp only [Bool.true_and, if_true, decide_eq_false_iff_not, decide_eq_true_eq, ne_eq, not_not]
      constructor
      · intro hms
        rw [← hms]
      · intro hms heq
        exact hms heq.symm

/-- The notice of an entry that filled after its end, told by each attempt. -/
def endedNotice (order : ProtoOAOrder) (b : Book) : List Record :=
  if order.orderId ∈ b.endedEntries then [.notice (.entryFilledAfterEnd order.orderId)] else []

/-- What an opening leaves in the book. -/
theorem openedBy_fields (env : Env) (event : ProtoOAExecutionEvent) (order : ProtoOAOrder)
    (precision : ℕ) (f : Focus) :
    (openedBy env event order precision f).syncedDeals = f.book.syncedDeals ∧
      (openedBy env event order precision f).endedEntries = f.book.endedEntries := by
  obtain ⟨-, -, hdeals, hended, -⟩ := reportedBy_fields env event order precision f.book
  unfold openedBy
  split
  · exact ⟨rfl, rfl⟩
  · exact ⟨hdeals, hended⟩

/-- Opening ends no entry. -/
theorem openedFocus_ended : (openedFocus event order f).book.endedEntries = f.book.endedEntries := by
  show (sync event order _).book.endedEntries = _
  unfold sync
  split
  · rfl
  · split
    · rfl
    · dsimp only
      split <;> rfl

/-- Where the second attempt at an opening order starts, on a position the book holds: the entry is
learnt and the state taken. -/
theorem openingOn_retry {env' : Env} {precision' : ℕ}
    (hraised : (openingOn env event order precision f).records = .error failure) :
    openingOn env' event order precision' (openingOn env event order precision f).focus =
      (({ openedFocus event order f with
          book := openedBy env event order precision (openedFocus event order f)
          position := stampFill event order (openedFocus event order f).position.isOpen
            (openedFocus event order f).position }.tell (endedNotice order f.book)).andThen
        (openingRecords env' event order precision' false)).andThen (openedTail event order) := by
  obtain ⟨-, hleft⟩ := openingOn_raised hraised
  obtain ⟨hdeals, hended⟩ := openedBy_fields env event order precision (openedFocus event order f)
  have hagain := opened_again (takesEntry event order f.position) (f := f)
    (g := { openedFocus event order f with
      book := openedBy env event order precision (openedFocus event order f) })
    rfl (hended.trans openedFocus_ended) hdeals
  have htakes : takesEntry event order (openedFocus event order f).position = false :=
    takesEntry_again rfl
  rw [hleft]
  unfold openingOn
  dsimp only
  rw [htakes, hagain]
  rfl

/-- What `_opening` tells before the event's own records. -/
def openedNotices (event : ProtoOAExecutionEvent) (order : ProtoOAOrder) (f : Focus) : List Record :=
  (if tellsUnreadable event order f.position then
      [.notice (.legsUnreadable f.position.positionId)] else []) ++
    endedNotice order f.book ++
    if tellsReduction event order f.position then
      [unnamedClose (openedFocus event order f).position event.deal] else []

/-- `_opening` from the entry it has learnt. -/
theorem openingOn_from (hclosing : order.closingOrder = false) :
    openingOn env event order precision f =
      (((openedFocus event order f).tell (openedNotices event order f)).andThen
        (openingRecords env event order precision (takesEntry event order f.position))).andThen
        (openedTail event order) := by
  have hopened : opened event order (takesEntry event order f.position) f =
      (openedFocus event order f).tell (openedNotices event order f) := by
    calc opened event order (takesEntry event order f.position) f
      _ = Handled.mk (openedFocus event order f)
          (opened event order (takesEntry event order f.position) f).records := rfl
      _ = (openedFocus event order f).tell (openedNotices event order f) := by
        rw [opened_told hclosing]
        rfl
  unfold openingOn
  dsimp only
  rw [hopened]

/-- The levels a position held before its entry was known get their legs once it is learnt. -/
def opensLegs (event : ProtoOAExecutionEvent) (order : ProtoOAOrder) (p : Position) : Bool :=
  takesEntry event order p && !p.levels.isEmpty

/-- Two handlers that go on alike. -/
theorem andThen_congr {h : Handled} {next next' : Focus → Handled}
    (hnext : next h.focus = next' h.focus) : h.andThen next = h.andThen next' := by
  unfold Handled.andThen
  rw [hnext]

/-- The event's own records are told alike from the book a first attempt left. -/
theorem openingRecords_openedBy {env' : Env} {precision' : ℕ} (learnt : Bool)
    (hkeeps : (g.position.ours && g.position.entryOrderId = some order.orderId) = true ∨
      marksFirst env event order precision g.book = false) :
    openingRecords env' event order precision' learnt
        { g with book := openedBy env event order precision g } =
      openingRecords env' event order precision' learnt g := by
  unfold openingRecords openedBy
  dsimp only
  by_cases hown : (g.position.ours && g.position.entryOrderId = some order.orderId) = true
  · rw [if_pos hown, if_pos hown, if_pos hown]
  · rw [if_neg hown, if_neg hown, if_neg hown]
    unfold openedExternal
    rw [externalEvent_reportedBy (hkeeps.resolve_left hown)]

/-- They are told alike once the entry is learnt, unless it has levels. -/
theorem openingRecords_learnt {learnt : Bool}
    (hkeeps : (g.position.ours && g.position.entryOrderId = some order.orderId) = true ∨
      (learnt && !g.position.levels.isEmpty) = false) :
    openingRecords env event order precision false g =
      openingRecords env event order precision learnt g := by
  unfold openingRecords
  by_cases hown : (g.position.ours && g.position.entryOrderId = some order.orderId) = true
  · rw [if_pos hown, if_pos hown]
  · rw [if_neg hown, if_neg hown]
    refine andThen_congr ?_
    dsimp only
    rw [externalEvent_position, hkeeps.resolve_left hown]
    rfl

/-- The event's own records are told alike by both attempts. -/
theorem openingRecords_again {env' : Env} {precision' : ℕ}
    (hkeeps : nodesEntry event order f.position = true ∨
      marksFirst env event order precision (openedFocus event order f).book = false ∧
        opensLegs event order f.position = false) :
    openingRecords env' event order precision' false
        { openedFocus event order f with
          book := openedBy env event order precision (openedFocus event order f) } =
      openingRecords env' event order precision' (takesEntry event order f.position)
        (openedFocus event order f) := by
  rw [← openedFocus_own] at hkeeps
  have hlevels : (openedFocus event order f).position.levels = f.position.levels :=
    opened_levels ..
  rw [openingRecords_openedBy false (hkeeps.imp_right (·.1))]
  refine openingRecords_learnt (hkeeps.imp_right fun h => ?_)
  rw [hlevels]
  exact h.2

/-- The second attempt at an opening order leaves and tells what the only one would. -/
theorem openingOn_again {env' : Env} {precision' : ℕ} (hclosing : order.closingOrder = false)
    (hraised : (openingOn env event order precision f).records = .error failure)
    (hstamps : stampsAgain event order f.position = false)
    (hunreadable : tellsUnreadable event order f.position = false)
    (hreduction : tellsReduction event order f.position = false)
    (hkeeps : nodesEntry event order f.position = true ∨
      marksFirst env event order precision (openedFocus event order f).book = false ∧
        opensLegs event order f.position = false) :
    openingOn env' event order precision' (openingOn env event order precision f).focus =
      openingOn env' event order precision' f := by
  have hnotices : openedNotices event order f = endedNotice order f.book := by
    unfold openedNotices
    rw [hunreadable, hreduction]
    exact List.append_nil _
  rw [openingOn_retry hraised, openingOn_from hclosing, (stampFill_again hclosing).1 hstamps, hnotices]
  exact congrArg (fun h : Handled => h.andThen (openedTail event order))
    (tell_andThen_congr (openingRecords_again hkeeps))

/-! ## What the second attempt at an opening order misses -/

/-- What the second handler leaves is as the first left it. -/
theorem position_andThen {α : Type} (read : Position → α) {h : Handled} {next : Focus → Handled}
    (hnext : ∀ g : Focus, read (next g).focus.position = read g.position) :
    read (h.andThen next).focus.position = read h.focus.position := by
  rcases Handled.andThen_focus h next with heq | heq
  · rw [heq]
  · rw [heq, hnext]

/-- The stamp of a fill is part of a position's outline. -/
theorem filledMs_of_outline {p q : Position} (h : q.outline = p.outline) :
    q.entryFilledMs = p.entryFilledMs := by
  show q.outline.entryFilledMs = p.outline.entryFilledMs
  rw [h]

/-- An event of the entry leaves it. -/
theorem filledMs_entryEvent (g : Focus) :
    (entryEvent env event order precision g).focus.position.entryFilledMs =
      g.position.entryFilledMs := by
  have hfilled (fill : Fill) (p : Position) :
      (entryFilled order fill p).1.entryFilledMs = p.entryFilledMs := by
    have hfollowed (q : Position) : (followProtection fill q).1.entryFilledMs = q.entryFilledMs := by
      unfold followProtection
      split
      · exact filledMs_of_outline (outline_levelChanges ..)
      · rfl
    refine Eq.trans ?_ (hfollowed { p with entryAccepted := true })
    show (awaitLevels _).1.entryFilledMs = _
    unfold awaitLevels
    split <;> rfl
  have hended (ended : OrderEventKind) (p : Position) :
      (endEntryLegs ended order p).1.entryFilledMs = p.entryFilledMs := by
    unfold endEntryLegs
    split
    · exact filledMs_of_outline (outline_overLegs ..)
    · rfl
  unfold entryEvent
  dsimp only
  split
  · split <;> rfl
  · split
    · split
      · rfl
      · exact hfilled ..
    · split
      · rfl
      · split
        · show (dropEntry order _).position.entryFilledMs = _
          rw [(dropEntry_does order _).2.2]
          exact hended ..
        · exact hended ..

/-- So does what an opening event tells. -/
theorem filledMs_openingRecords (learnt : Bool) (g : Focus) :
    (openingRecords env event order precision learnt g).focus.position.entryFilledMs =
      g.position.entryFilledMs := by
  unfold openingRecords
  split
  · exact filledMs_entryEvent g
  · refine (position_andThen Position.entryFilledMs fun k => ?_).trans ?_
    · dsimp only [Focus.tell]
      split
      · exact filledMs_of_outline (outline_foreignChanges ..)
      · rfl
    · rw [externalEvent_position]

/-- So does what follows an opening. -/
theorem filledMs_openedTail (g : Focus) :
    (openedTail event order g).focus.position.entryFilledMs = g.position.entryFilledMs := by
  refine (position_andThen Position.entryFilledMs fun k => ?_).trans rfl
  unfold endIfClosed
  split
  · let cleared : Position := { k.position with protectiveOrderId := none, levels := {} }
    have hcancelled : (cancelLegs event.deal.executionTimestamp cleared).1.entryFilledMs =
        cleared.entryFilledMs := filledMs_of_outline (outline_overLegs ..)
    exact hcancelled
  · rfl

/-- What follows an opening announces nothing. -/
theorem announced_openedTail {told : List Record}
    (hok : (openedTail event order g).records = .ok told) : announced told = 0 := by
  obtain ⟨stopOut, ending, hstopOut, hending, rfl⟩ := told_andThen hok
  rw [announced_append, announced_endIfClosed hending, ← Except.ok.inj hstopOut, Nat.add_zero]
  unfold stopOutActivity
  split
  · rfl
  · rfl

/-- Each level seen before its entry is announced as the leg it gets. -/
theorem announced_levelChanges {heldClosed : Finset String} {ts : ℤ} {p : Position} {entryOrderId : ℤ}
    (hentry : p.entryOrderId = some entryOrderId) (hlevels : p.levels.isEmpty = false) :
    0 < announced (ForeignLegs.levelChanges heldClosed {} ts p).2 := by
  have hstep {q : Position} {level : Level} {price : ℚ} (hprice : q.levels.get? level = some price) :
      announced (ForeignLegs.levelChange heldClosed entryOrderId {} ts q level).2 = 1 := by
    unfold ForeignLegs.levelChange
    rw [hprice]
    cases (q.foreignLegs.get? level).filter ForeignLeg.alive with
    | none => rfl
    | some leg =>
      dsimp only
      rw [if_neg (by cases level <;> exact Option.some_ne_none price)]
      rfl
  have hsame (q : Position) (level : Level) :
      (ForeignLegs.levelChange heldClosed entryOrderId {} ts q level).1.levels = q.levels := by
    show (ForeignLegs.levelChange heldClosed entryOrderId {} ts q level).1.outline.levels = _
    rw [outline_foreignChange]
    rfl
  unfold ForeignLegs.levelChanges
  rw [hentry]
  dsimp only
  unfold Position.overLevels
  dsimp only
  rw [announced_append, announced_append]
  cases hstop : p.levels.stopLoss with
  | some price =>
    have hfirst : announced (ForeignLegs.levelChange heldClosed entryOrderId {} ts p .stopLoss).2 = 1 :=
      hstep hstop
    omega
  | none =>
    cases htarget : p.levels.takeProfit with
    | some price =>
      have hheld : (ForeignLegs.levelChange heldClosed entryOrderId {} ts p .stopLoss).1.levels.get?
          .takeProfit = some price := by
        rw [hsame]
        exact htarget
      have hsecond := hstep hheld
      omega
    | none =>
      rw [ByLevel.isEmpty, hstop, htarget] at hlevels
      cases hlevels

/-- What is told of the legs of levels that were seen before their entry. -/
def learntLegs (env : Env) (order : ProtoOAOrder) (learnt : Bool) (p : Position) : List Record :=
  (if learnt && !p.levels.isEmpty then
    ForeignLegs.levelChanges env.heldClosed {} order.utcLastUpdateTimestamp p
  else (p, [])).2

/-- The foreign legs of an entry that is learnt are announced. -/
theorem learntLegs_announced {learnt : Bool} {p : Position} (hlearnt : learnt = true)
    (hentry : p.entryOrderId.isSome = true) (hlevels : p.levels.isEmpty = false) :
    0 < announced (learntLegs env order learnt p) := by
  unfold learntLegs
  rw [hlearnt, hlevels]
  obtain ⟨entryOrderId, hentry⟩ := Option.isSome_iff_exists.mp hentry
  exact announced_levelChanges hentry hlevels

/-- What an order that is not the node's entry announces: its report, and such legs. -/
theorem announced_openedExternal {learnt : Bool} {told : List Record}
    (hok : (openedExternal env event order precision learnt g).records = .ok told) :
    ∃ report, (externalEvent env event order precision false g).records = .ok report ∧
      announced told = announced report + announced (learntLegs env order learnt g.position) := by
  obtain ⟨report, later, hreport, hlater, rfl⟩ := told_andThen hok
  refine ⟨report, hreport, ?_⟩
  rw [← externalEvent_position env event order precision false g, ← Except.ok.inj hlater,
    announced_append, announced_append, announced_ite rfl, Nat.zero_add]
  rfl

/-- What the notices of an opening announce. -/
theorem announced_notices : announced (openedNotices event order f) =
    (tellsUnreadable event order f.position).toNat + announced (endedNotice order f.book) +
      (tellsReduction event order f.position).toNat := by
  unfold openedNotices
  rw [announced_append, announced_append]
  cases tellsUnreadable event order f.position <;> cases tellsReduction event order f.position <;> rfl

/-- An opening announces its notices and its records. -/
theorem announced_opening {told notices : List Record} {next : Focus → Handled}
    (hok : (((g.tell notices).andThen next).andThen (openedTail event order)).records = .ok told) :
    ∃ records, (next g).records = .ok records ∧
      announced told = announced notices + announced records := by
  obtain ⟨first, ending, hfirst, hending, rfl⟩ := told_andThen hok
  obtain ⟨said, records, hsaid, hrecords, rfl⟩ := told_andThen hfirst
  refine ⟨records, hrecords, ?_⟩
  rw [announced_append, announced_append, announced_openedTail hending, ← Except.ok.inj hsaid,
    Nat.add_zero]

/-- An opening stamps no fill after its own. -/
theorem filledMs_opening {notices : List Record} {learnt : Bool} :
    (((g.tell notices).andThen (openingRecords env event order precision learnt)).andThen
      (openedTail event order)).focus.position.entryFilledMs = g.position.entryFilledMs :=
  (position_andThen Position.entryFilledMs fun _ => filledMs_openedTail _).trans
    ((position_andThen Position.entryFilledMs fun _ => filledMs_openingRecords ..).trans rfl)

/-- The two attempts at an opening order differ in the entry's first fill or in what they announce. -/
theorem openingOn_misses {env' : Env} {precision' : ℕ} {told : List Record}
    (hclosing : order.closingOrder = false)
    (hraised : (openingOn env event order precision f).records = .error failure)
    (hok : (openingOn env' event order precision' f).records = .ok told)
    (hposition : (openingOn env' event order precision'
        (openingOn env event order precision f).focus).focus.position =
      (openingOn env' event order precision' f).focus.position)
    (hrecords : (openingOn env' event order precision'
        (openingOn env event order precision f).focus).records = .ok told) :
    stampsAgain event order f.position = false ∧ tellsUnreadable event order f.position = false ∧
      tellsReduction event order f.position = false ∧
      (nodesEntry event order f.position = true ∨
        marksFirst env event order precision (openedFocus event order f).book = false ∧
          opensLegs event order f.position = false) := by
  rw [openingOn_retry hraised] at hposition hrecords
  rw [openingOn_from hclosing] at hok hposition
  have hstamps : stampsAgain event order f.position = false := by
    by_contra hstamps
    rw [Bool.not_eq_false] at hstamps
    have hms := congrArg Position.entryFilledMs hposition
    rw [filledMs_opening, filledMs_opening] at hms
    exact (stampFill_again hclosing).2 hstamps hms
  rw [(stampFill_again hclosing).1 hstamps] at hrecords
  obtain ⟨first, hfirst, htold⟩ := announced_opening hok
  obtain ⟨second, hsecond, htold'⟩ := announced_opening hrecords
  rw [announced_notices] at htold
  have hsilent : (tellsUnreadable event order f.position).toNat +
      (tellsReduction event order f.position).toNat = 0 →
      tellsUnreadable event order f.position = false ∧
        tellsReduction event order f.position = false := by
    cases tellsUnreadable event order f.position <;> cases tellsReduction event order f.position <;>
      simp
  have hown : ((openedFocus event order f).position.ours &&
      (openedFocus event order f).position.entryOrderId = some order.orderId) =
        nodesEntry event order f.position := openedFocus_own
  unfold openingRecords openedBy at hsecond
  unfold openingRecords at hfirst
  dsimp only at hfirst hsecond
  rw [hown] at hfirst hsecond
  by_cases hnodes : nodesEntry event order f.position = true
  · rw [if_pos hnodes] at hfirst hsecond
    rw [if_pos hnodes] at hsecond
    obtain rfl : first = second := Except.ok.inj (hfirst.symm.trans hsecond)
    obtain ⟨hunreadable, hreduction⟩ := hsilent (by omega)
    exact ⟨hstamps, hunreadable, hreduction, .inl hnodes⟩
  · rw [if_neg hnodes] at hfirst hsecond
    rw [if_neg hnodes] at hsecond
    obtain ⟨report, hreport, hannounced⟩ := announced_openedExternal hfirst
    obtain ⟨again, hagain, hannounced'⟩ := announced_openedExternal hsecond
    -- the second attempt learns no entry, so it announces none of its legs
    have hnolegs : announced (learntLegs env' order false (openedFocus event order f).position) = 0 :=
      rfl
    dsimp only at hannounced'
    cases hmarks : marksFirst env event order precision (openedFocus event order f).book with
    | true =>
      -- the first attempt announced the order; the second finds it known
      obtain ⟨hnew, hkind, hin⟩ := marksFirst_iff hmarks
      have hone := announced_externalEvent hnew hkind hreport
      have hnone := announced_externalEvent_known hin hkind hagain
      omega
    | false =>
      -- the two reports are the same, so only the legs can tell the attempts apart
      rw [externalEvent_reportedBy hmarks] at hagain
      obtain rfl : report = again := Except.ok.inj (hreport.symm.trans hagain)
      obtain ⟨hunreadable, hreduction⟩ := hsilent (by omega)
      refine ⟨hstamps, hunreadable, hreduction, .inr ⟨rfl, ?_⟩⟩
      by_contra hlegs
      rw [Bool.not_eq_false, opensLegs, Bool.and_eq_true, Bool.not_eq_true'] at hlegs
      have hentry : (openedFocus event order f).position.entryOrderId.isSome = true := by
        rw [openedFocus_entry, if_pos hlegs.1]
        rfl
      have hlevels : (openedFocus event order f).position.levels.isEmpty = false := by
        rw [show (openedFocus event order f).position.levels = f.position.levels from
          opened_levels ..]
        exact hlegs.2
      have hsome : 0 < announced (learntLegs env' order (takesEntry event order f.position)
        (openedFocus event order f).position) := learntLegs_announced hlegs.1 hentry hlevels
      omega

end VenueBook

end NautilusCtrader
