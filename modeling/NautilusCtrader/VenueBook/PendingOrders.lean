import NautilusCtrader.VenueBook.StandingOrders

/-!
# Pending orders that ended stay ended

The book holds the newest state of each pending order it knows from reports until the order ends, and
what is left of each on an unloaded symbol. An event can reach the wrong place: one of the node's own
entry never reaches the states held, an acceptance that comes after the end brings an order back that
was not reported, and on an unloaded symbol always. `Regular` says which events do not, and over a run
of such events an order that ended stays ended and the state held is the newest applied.
-/

namespace NautilusCtrader

open Common

namespace VenueBook

/-! ## What is read of a pending order -/

/-- `open_order`: the last known state of an open pending order Nautilus knows from reports. -/
def openOrder (b : Book) (orderId : ℤ) : Option ProtoOAOrder := b.openOrders.get? orderId

/-- What `exposure` counts of a pending order on a symbol the node has not loaded. -/
def orderExposure (b : Book) (orderId : ℤ) : Option Exposure := b.unloadedOrders.get? orderId

/-- Whether an execution ends its order. -/
def endsOrder (kind : ProtoOAExecutionType) : Bool :=
  kind = .orderFilled || (endedEventKind kind).isSome

/-- Whether an execution opens an order that is not known. -/
def opensOrder (kind : ProtoOAExecutionType) : Bool := kind = .orderAccepted || isFill kind

/-! ## What an event does to the orders held -/

/-- The same orders are held, reported and exposed. -/
structure SamePending (b b' : Book) : Prop where
  openOrders : b'.openOrders = b.openOrders
  unloadedOrders : b'.unloadedOrders = b.unloadedOrders
  reported : b'.reported = b.reported

/-- A book agrees with itself on the orders held. -/
theorem SamePending.refl (b : Book) : SamePending b b := ⟨rfl, rfl, rfl⟩

/-- Agreeing on the orders held carries from book to book. -/
theorem SamePending.trans {b b' b'' : Book} (h : SamePending b b') (h' : SamePending b' b'') :
    SamePending b b'' :=
  ⟨h'.openOrders.trans h.openOrders, h'.unloadedOrders.trans h.unloadedOrders,
    h'.reported.trans h.reported⟩

/-- Books with the same orders hold the same pending ones. -/
theorem SameOrders.pending {b b' : Book} (h : SameOrders b b') : SamePending b b' :=
  ⟨h.openOrders, h.unloadedOrders, h.reported⟩

section

variable {env : Env} {ops : Operations} {event : ProtoOAExecutionEvent} {order : ProtoOAOrder}

/-- Whether an event states what is newest of its order: it opens one not known, or replaces or partly
fills one with a state not older than the one held. -/
def takesState (event : ProtoOAExecutionEvent) (order : ProtoOAOrder) (b : Book) : Bool :=
  !endsOrder event.executionType &&
    (opensOrder event.executionType && order.orderId ∉ b.reported ||
      (event.executionType = .orderReplaced || event.executionType = .orderPartialFill) &&
        (openOrder b order.orderId).any fun held =>
          held.utcLastUpdateTimestamp ≤ order.utcLastUpdateTimestamp)

/-- `_keep_open_order` takes the state of a pending order's event just then. -/
theorem keepOpenOrder_taken (hpending : isPending order.orderType = true) (b : Book) :
    (keepOpenOrder event order (order.orderId ∈ b.reported) b).2 = takesState event order b := by
  unfold keepOpenOrder takesState openOrder
  rw [hpending]
  simp only [Bool.not_true, Bool.false_eq_true, if_false]
  cases hkind : event.executionType
  all_goals simp only [endsOrder, opensOrder, isFill, endedEventKind, reduceCtorEq, decide_true,
    decide_false, Option.isSome_none, Option.isSome_some, Bool.or_true, Bool.or_false,
    Bool.false_or, Bool.not_true, Bool.not_false, Bool.true_and, Bool.false_and, if_true, if_false,
    Bool.false_eq_true]
  case orderAccepted =>
    split
    · rename_i h
      simpa using h
    · rename_i h
      simpa using h
  case orderReplaced =>
    split
    · rename_i h
      rw [h]
      rfl
    · rename_i held h
      rw [h]
      split <;> simp [*]
  case orderPartialFill =>
    split
    · rename_i h
      rw [Bool.not_eq_true', decide_eq_false_iff_not] at h
      simp [h]
    · rename_i h
      rw [Bool.not_eq_true', decide_eq_false_iff_not, not_not] at h
      split
      · rename_i hheld
        simp [h, hheld]
      · rename_i held hheld
        split <;> simp [*]

/-- Keeping an open order leaves the unloaded orders and the reported ones. -/
theorem keepOpenOrder_unloaded (event : ProtoOAExecutionEvent) (order : ProtoOAOrder) (known : Bool)
    (b : Book) :
    (keepOpenOrder event order known b).1.unloadedOrders = b.unloadedOrders ∧
      (keepOpenOrder event order known b).1.reported = b.reported := by
  unfold keepOpenOrder
  dsimp only
  repeat' split
  all_goals exact ⟨rfl, rfl⟩

/-- The three things `_keep_open_order` does with a pending order's event: it drops the order where it
ended, takes its state, or leaves what is held. -/
theorem keepOpenOrder_cases (event : ProtoOAExecutionEvent) (hpending : isPending order.orderType = true) (b : Book) :
    let kept := (keepOpenOrder event order (order.orderId ∈ b.reported) b).1
    (endsOrder event.executionType = true ∧ takesState event order b = false ∧
      kept.openOrders = b.openOrders.erase order.orderId) ∨
    (endsOrder event.executionType = false ∧ takesState event order b = true ∧
      kept.openOrders = b.openOrders.set order.orderId order ∧
      (order.orderId ∉ b.reported ∧ opensOrder event.executionType = true ∨
        ∃ held, openOrder b order.orderId = some held ∧
          held.utcLastUpdateTimestamp ≤ order.utcLastUpdateTimestamp)) ∨
    (endsOrder event.executionType = false ∧ takesState event order b = false ∧
      kept.openOrders = b.openOrders ∧
      (opensOrder event.executionType = true → order.orderId ∈ b.reported)) := by
  intro kept
  have hends : endsOrder event.executionType =
      (decide (event.executionType = .orderFilled) ||
        (endedEventKind event.executionType).isSome) := rfl
  rw [← keepOpenOrder_taken hpending]
  revert kept
  unfold keepOpenOrder
  rw [hpending]
  simp only [Bool.not_true, Bool.false_eq_true, if_false]
  split
  · rename_i hended
    exact .inl ⟨hended, rfl, rfl⟩
  · rename_i hended
    have hstands : endsOrder event.executionType = false := by
      rw [hends]
      simpa using hended
    have hopens : opensOrder event.executionType = true →
        event.executionType = .orderAccepted ∨ event.executionType = .orderPartialFill := by
      intro h
      have hnot : event.executionType ≠ .orderFilled := fun h => hended (by simp [h])
      simpa [opensOrder, isFill, hnot] using h
    split
    · rename_i hunknown
      rw [Bool.and_eq_true, Bool.not_eq_true', decide_eq_false_iff_not, Bool.or_eq_true,
        decide_eq_true_eq, decide_eq_true_eq] at hunknown
      refine .inr (.inl ⟨hstands, rfl, rfl, .inl ⟨hunknown.2, ?_⟩⟩)
      -- an order that is not known is kept back by its acceptance or its fill only
      rcases hunknown.1 with h | h
      · simp [opensOrder, h]
      · simp [opensOrder, isFill, h]
    · rename_i hknown
      have hreported : opensOrder event.executionType = true → order.orderId ∈ b.reported := by
        intro h
        simpa [hopens h] using hknown
      -- a held order takes a state that is newer than its own
      split
      · split
        · exact .inr (.inr ⟨hstands, rfl, rfl, hreported⟩)
        · rename_i held hheld
          split
          · rename_i hnewer
            exact .inr (.inl ⟨hstands, rfl, rfl, .inr ⟨held, hheld, hnewer⟩⟩)
          · exact .inr (.inr ⟨hstands, rfl, rfl, hreported⟩)
      · exact .inr (.inr ⟨hstands, rfl, rfl, hreported⟩)

/-- Whether the prices and amounts that an event of an order known from reports needs can be read. -/
def readable (env : Env) (event : ProtoOAExecutionEvent) (order : ProtoOAOrder) (precision : ℕ)
    (b : Book) : Bool :=
  let reports := opensOrder event.executionType && order.orderId ∉ b.reported
  let updates := event.executionType = .orderReplaced && takesState event order b
  (!isFill event.executionType || (fillOf event.deal precision env.moneyDigits).isOk) &&
    (!(reports || updates) || (levelsOf order precision).isOk)

/-- What `_external_event` does to the orders held and reported. -/
structure TakesExternal (env : Env) (precision : ℕ) (event : ProtoOAExecutionEvent)
    (order : ProtoOAOrder) (b b' : Book) (records : Except Failure (List Record)) : Prop where
  openOrders : b'.openOrders =
    (keepOpenOrder event order (order.orderId ∈ b.reported) b).1.openOrders
  unloadedOrders : b'.unloadedOrders = b.unloadedOrders
  reported : b'.reported = b.reported ∨
    opensOrder event.executionType = true ∧ b'.reported = insert order.orderId b.reported
  known : ∀ told, records = .ok told → opensOrder event.executionType = true →
    order.orderId ∈ b'.reported
  unread : isFill event.executionType = true →
    (fillOf event.deal precision env.moneyDigits).isOk = false → b'.reported = b.reported

/-- Reporting an external order adds it to the reported ones and holds the rest. -/
theorem reportExternal_pending (order : ProtoOAOrder) (precision : ℕ) (reduceOnly : Bool) (fills : List Fill) (f : Focus) :
    let done := reportExternal order precision reduceOnly fills f
    done.focus.book.openOrders = f.book.openOrders ∧
      done.focus.book.unloadedOrders = f.book.unloadedOrders ∧
      done.focus.book.reported = insert order.orderId f.book.reported := by
  unfold reportExternal
  dsimp only
  split
  · exact ⟨rfl, rfl, rfl⟩
  · exact ⟨rfl, rfl, rfl⟩

/-- `_external_event` does to the orders held what `TakesExternal` says. -/
theorem externalEvent_pending (env : Env) (precision : ℕ) (reduceOnly : Bool) (f : Focus) :
    TakesExternal env precision event order f.book
      (externalEvent env event order precision reduceOnly f).focus.book
      (externalEvent env event order precision reduceOnly f).records := by
  have hkept := keepOpenOrder_unloaded event order (order.orderId ∈ f.book.reported) f.book
  obtain ⟨hunloaded, hreported⟩ := hkept
  have hreports (kind : opensOrder event.executionType = true)
      (hread : isFill event.executionType = true →
        (fillOf event.deal precision env.moneyDigits).isOk = true) (fills : List Fill) :
      TakesExternal env precision event order f.book
        (reportExternal order precision reduceOnly fills { f with
          book := (keepOpenOrder event order (order.orderId ∈ f.book.reported) f.book).1 }).focus.book
        (reportExternal order precision reduceOnly fills { f with
          book := (keepOpenOrder event order (order.orderId ∈ f.book.reported) f.book).1 }).records := by
    obtain ⟨hopen, hun, hrep⟩ := reportExternal_pending order precision reduceOnly fills
      { f with book := (keepOpenOrder event order (order.orderId ∈ f.book.reported) f.book).1 }
    refine ⟨hopen, hun.trans hunloaded, .inr ⟨kind, hrep.trans ?_⟩, fun _ _ _ => ?_,
      fun hfill hunread => ?_⟩
    · rw [hreported]
    · rw [hrep]
      exact Finset.mem_insert_self ..
    · rw [hread hfill] at hunread
      cases hunread
  have hstays (records : Except Failure (List Record))
      (hknown : opensOrder event.executionType = true → ∀ told, records = .ok told →
        order.orderId ∈ f.book.reported) :
      TakesExternal env precision event order f.book
        (keepOpenOrder event order (order.orderId ∈ f.book.reported) f.book).1 records :=
    ⟨rfl, hunloaded, .inl hreported, fun told hok hkind => by
      rw [hreported]
      exact hknown hkind told hok, fun _ _ => hreported⟩
  unfold externalEvent
  dsimp only
  split
  · rename_i haccepted
    have hopens : opensOrder event.executionType = true := by simp [opensOrder, haccepted]
    split
    · rename_i hknown
      exact hstays _ fun _ _ _ => of_decide_eq_true hknown
    · exact hreports hopens (fun hfill => by simp [haccepted, isFill] at hfill) []
  · rename_i haccepted
    split
    · rename_i hfill
      have hopens : opensOrder event.executionType = true := by simp [opensOrder, hfill]
      split
      · exact hstays _ fun _ told h => by cases h
      · rename_i fill hfillOf
        split
        · rename_i hknown
          exact hstays _ fun _ _ _ => of_decide_eq_true hknown
        · exact hreports hopens (fun _ => by rw [hfillOf]; rfl) _
    · rename_i hfill
      have hopens : opensOrder event.executionType = false := by simp [opensOrder, haccepted, hfill]
      have hquiet (records : Except Failure (List Record)) :
          TakesExternal env precision event order f.book
            (keepOpenOrder event order (order.orderId ∈ f.book.reported) f.book).1 records :=
        hstays records fun h => by
          rw [hopens] at h
          cases h
      split
      · exact hquiet _
      · split
        · split
          · exact hquiet _
          · split
            · exact hquiet _
            · exact hquiet _
        · split
          · exact hquiet _
          · exact hquiet _

/-- An event whose prices and amounts can be read is told. -/
theorem externalEvent_ok {precision : ℕ} {f : Focus} (hpending : isPending order.orderType = true)
    (h : readable env event order precision f.book = true) (reduceOnly : Bool) :
    ∃ told, (externalEvent env event order precision reduceOnly f).records = .ok told := by
  unfold readable at h
  dsimp only at h
  rw [Bool.and_eq_true] at h
  obtain ⟨hfills, hprices⟩ := h
  have hreport (fills : List Fill) (g : Focus) (hok : (levelsOf order precision).isOk = true) :
      ∃ told, (reportExternal order precision reduceOnly fills g).records = .ok told := by
    unfold reportExternal
    dsimp only
    split
    · rename_i failure hlevels
      rw [hlevels] at hok
      cases hok
    · exact ⟨_, rfl⟩
  unfold externalEvent
  dsimp only
  split
  · rename_i haccepted
    split
    · exact ⟨_, rfl⟩
    · rename_i hknown
      refine hreport _ _ ?_
      simpa [opensOrder, haccepted, hknown] using hprices
  · split
    · rename_i hfill
      split
      · rename_i failure hfailed
        rw [hfill, hfailed] at hfills
        cases hfills
      · split
        · exact ⟨_, rfl⟩
        · rename_i hknown
          refine hreport _ _ ?_
          simpa [opensOrder, hfill, hknown] using hprices
    · split
      · exact ⟨_, rfl⟩
      · split
        · rename_i hreplaced
          split
          · exact ⟨_, rfl⟩
          · rename_i htaken
            split
            · rename_i failure hlevels
              rw [hlevels] at hprices
              have htaken' : takesState event order f.book = true := by
                rw [← keepOpenOrder_taken hpending]
                simpa [hpending] using htaken
              simp [opensOrder, hreplaced, isFill, htaken', Except.isOk, Except.toBool] at hprices
            · exact ⟨_, rfl⟩
        · split
          · exact ⟨_, rfl⟩
          · exact ⟨_, rfl⟩

/-! ### By route -/

/-- Matching a closing order leaves the orders held. -/
theorem matchClosing_pending (f : Focus) :
    SamePending f.book (matchClosing ops event order f).1.book := by
  unfold matchClosing
  split
  · exact .refl _
  · split
    · split
      · split
        · exact .refl _
        · exact ⟨rfl, rfl, rfl⟩
      · exact .refl _
    · exact .refl _

/-- What is taken of a state depends only on the orders held and reported. -/
theorem takesState_congr {b c : Book} (hsame : SamePending b c) :
    takesState event order c = takesState event order b ∧
      (keepOpenOrder event order (order.orderId ∈ c.reported) c).1.openOrders =
        (keepOpenOrder event order (order.orderId ∈ b.reported) b).1.openOrders := by
  unfold takesState openOrder keepOpenOrder
  rw [hsame.reported, hsame.openOrders]
  refine ⟨rfl, ?_⟩
  dsimp only
  repeat' split
  all_goals first
    | rfl
    | exact hsame.openOrders

/-- So does what must be readable of an event. -/
theorem readable_congr {b c : Book} (hsame : SamePending b c) (precision : ℕ) :
    readable env event order precision c = readable env event order precision b := by
  unfold readable
  rw [(takesState_congr hsame).1, hsame.reported]

/-- The same of a book with the same orders, before and after. -/
theorem TakesExternal.between {precision : ℕ} {b c c' b' : Book} {records records' : Except Failure (List Record)}
    (h : TakesExternal env precision event order c c' records) (hbefore : SamePending b c)
    (hafter : SamePending c' b')
    (hok : ∀ told, records' = .ok told → ∃ first, records = .ok first) :
    TakesExternal env precision event order b b' records' where
  openOrders := hafter.openOrders.trans (h.openOrders.trans (takesState_congr hbefore).2)
  unloadedOrders := hafter.unloadedOrders.trans (h.unloadedOrders.trans hbefore.unloadedOrders)
  reported := by
    rw [hafter.reported]
    refine h.reported.imp (fun heq => heq.trans hbefore.reported) fun heq => ⟨heq.1, ?_⟩
    rw [heq.2, hbefore.reported]
  known told hrecords hkind := by
    obtain ⟨first, hfirst⟩ := hok told hrecords
    rw [hafter.reported]
    exact h.known first hfirst hkind
  unread hfill hunread := by
    rw [hafter.reported, h.unread hfill hunread, hbefore.reported]

/-- A later part that leaves the orders held leaves those of the first. -/
theorem pending_andThen {h : Handled} {next : Focus → Handled}
    (hnext : ∀ g, SamePending g.book (next g).focus.book) :
    SamePending h.focus.book (h.andThen next).focus.book := by
  rcases Handled.andThen_focus h next with heq | heq
  · rw [heq]
    exact .refl _
  · rw [heq]
    exact hnext _

/-- What follows an opening leaves the orders held. -/
theorem openedTail_pending (f : Focus) : SamePending f.book (openedTail event order f).focus.book :=
  (openedTail_sameOrders event order f).pending

/-- A handler that runs `_external_event` on a book with the same orders, and adds what touches none. -/
theorem takes_of_external {b : Book} (g : Focus) {h : Handled} {precision : ℕ} (reduceOnly : Bool)
    (hpending : isPending order.orderType = true) (hbefore : SamePending b g.book)
    (hbook : SamePending (externalEvent env event order precision reduceOnly g).focus.book h.focus.book)
    (hok : (∃ told, h.records = .ok told) ↔
      ∃ told, (externalEvent env event order precision reduceOnly g).records = .ok told) :
    TakesExternal env precision event order b h.focus.finish h.records ∧
      (readable env event order precision b = true → ∃ told, h.records = .ok told) := by
  have hfinish := hbook.trans (finish_sameOrders h.focus).pending
  refine ⟨(externalEvent_pending env precision reduceOnly g).between hbefore hfinish
    fun told htold => hok.mp ⟨told, htold⟩, fun hreadable => hok.mpr ?_⟩
  rw [← readable_congr hbefore] at hreadable
  exact externalEvent_ok hpending hreadable reduceOnly

/-- Before a part that cannot raise, the first part alone decides. -/
theorem ok_andThen {h : Handled} {next : Focus → Handled}
    (hnext : ∀ g, ∃ told, (next g).records = .ok told) :
    (∃ told, (h.andThen next).records = .ok told) ↔ ∃ told, h.records = .ok told := by
  refine ⟨fun ⟨told, htold⟩ => (Handled.andThen_of_ok htold).2, fun ⟨told, htold⟩ => ?_⟩
  obtain ⟨later, hlater⟩ := hnext h.focus
  exact ⟨_, Handled.andThen_ok htold hlater⟩

/-- After telling records, the later part alone decides. -/
theorem ok_tell_andThen (f : Focus) (told : List Record) (next : Focus → Handled) :
    (∃ records, ((f.tell told).andThen next).records = .ok records) ↔
      ∃ records, (next f).records = .ok records := by
  show (∃ records, Except.map (told ++ ·) (next f).records = .ok records) ↔ _
  cases (next f).records with
  | error failure =>
    refine ⟨fun ⟨records, h⟩ => ?_, fun ⟨records, h⟩ => ?_⟩
    · cases h
    · cases h
  | ok records => exact ⟨fun _ => ⟨_, rfl⟩, fun _ => ⟨_, rfl⟩⟩

/-- What the end of a handler leaves of the orders, after a first part that only told. -/
theorem pending_tell_andThen (f : Focus) (told : List Record) (next : Focus → Handled)
    {last : Focus → Handled} (hlast : ∀ g, SamePending g.book (last g).focus.book) :
    SamePending (next f).focus.book (((f.tell told).andThen next).andThen last).focus.book := by
  have hfirst : ((f.tell told).andThen next).focus = (next f).focus := rfl
  rw [← hfirst]
  exact pending_andThen hlast

/-- A closing order no close matches is handled as an external one. -/
theorem closingRecords_external (env : Env) (event : ProtoOAExecutionEvent) (order : ProtoOAOrder)
    (precision : ℕ) (f : Focus) :
    let done := closingRecords env event order precision none f
    SamePending (externalEvent env event order precision true f).focus.book done.focus.book ∧
      ((∃ told, done.records = .ok told) ↔
        ∃ told, (externalEvent env event order precision true f).records = .ok told) :=
  ⟨pending_andThen fun _ => .refl _, ok_andThen fun _ => ⟨_, rfl⟩⟩

/-- So is an opening of an order the node does not own. -/
theorem openedExternal_external (env : Env) (event : ProtoOAExecutionEvent) (order : ProtoOAOrder)
    (precision : ℕ) (learnt : Bool) (f : Focus) :
    let done := openedExternal env event order precision learnt f
    SamePending (externalEvent env event order precision false f).focus.book done.focus.book ∧
      ((∃ told, done.records = .ok told) ↔
        ∃ told, (externalEvent env event order precision false f).records = .ok told) :=
  ⟨pending_andThen fun _ => .refl _, ok_andThen fun _ => ⟨_, rfl⟩⟩

/-- An event of an order the node does not own, on a loaded symbol. -/
theorem handleLoaded_external (env : Env) {b : Book} (hpending : isPending order.orderType = true)
    (hroute : routeOf ops b event order = .external) (precision : ℕ) :
    let done := handleLoaded env ops b event order precision
    TakesExternal env precision event order b done.focus.finish done.records ∧
      (readable env event order precision b = true → ∃ told, done.records = .ok told) := by
  have htype : order.orderType ≠ .stopLossTakeProfit := by
    intro htype
    rw [htype] at hpending
    cases hpending
  intro done
  have hdone : done = handleLoaded env ops b event order precision := rfl
  unfold handleLoaded at hdone
  dsimp only at hdone
  rw [if_neg htype] at hdone
  unfold routeOf at hroute
  dsimp only at hroute
  -- a closing order no command sent, or an opening order that is not the node's
  by_cases hclosing : order.closingOrder = true
  · rw [if_pos hclosing] at hdone hroute
    have hmatch : (matchClosing ops event order
        (sync event order (positionFor b event order))).2 = none := by
      by_contra hsome
      rw [if_neg (by simpa using hsome)] at hroute
      cases hroute
    unfold closingOn at hdone
    dsimp only at hdone
    rw [hmatch] at hdone
    generalize hf : (matchClosing ops event order (sync event order (positionFor b event order))).1 =
      f at hdone
    have hbefore : SamePending b f.book := by
      rw [← hf, matchClosing_none hmatch]
      exact ((positionFor_sameOrders b event order).trans (sync_sameOrders event order _)).pending
    obtain ⟨hbook, hok⟩ := closingRecords_external env event order precision f
    rw [hdone]
    refine takes_of_external f true hpending hbefore (hbook.trans ?_) ?_
    · exact pending_tell_andThen f _ _ fun g => (endIfClosed_sameOrders event _ g).pending
    · rw [ok_andThen fun g => endIfClosed_ok event _ g, ok_tell_andThen]
      exact hok
  · rw [if_neg hclosing] at hdone hroute
    by_cases hended : order.orderId ∈ b.endedEntries ∧ !isFill event.executionType
    · rw [if_pos hended] at hroute
      cases hroute
    · rw [if_neg hended] at hdone hroute
      unfold openingOn at hdone
      dsimp only at hdone
      generalize hlearnt : takesEntry event order (positionFor b event order).position = learnt
        at hdone hroute
      have hforeign : ¬ ((opened event order learnt (positionFor b event order)).focus.position.ours &&
          (opened event order learnt (positionFor b event order)).focus.position.entryOrderId =
            some order.orderId) = true := by
        intro hown
        rw [if_pos hown] at hroute
        cases hroute
      have hrecords : openingRecords env event order precision learnt
          (opened event order learnt (positionFor b event order)).focus =
          openedExternal env event order precision learnt
            (opened event order learnt (positionFor b event order)).focus := if_neg hforeign
      have hbefore : SamePending b (opened event order learnt (positionFor b event order)).focus.book :=
        ((positionFor_sameOrders b event order).trans (opened_sameOrders ..)).pending
      obtain ⟨hbook, hok⟩ := openedExternal_external env event order precision learnt
        (opened event order learnt (positionFor b event order)).focus
      rw [hdone]
      refine takes_of_external _ false hpending hbefore (hbook.trans ?_) ?_
      · rw [← hrecords]
        exact pending_tell_andThen _ _ _ fun g => openedTail_pending g
      · rw [ok_andThen fun g => openedTail_ok event order g]
        rw [← hrecords] at hok
        exact (ok_tell_andThen ..).trans hok

/-- An event of one of the node's own orders, or of an ended entry, on a loaded symbol. -/
theorem handleLoaded_own (env : Env) {b : Book} (htype : order.orderType ≠ .stopLossTakeProfit)
    (hroute : routeOf ops b event order ≠ .external) (precision : ℕ) :
    SamePending b (handleLoaded env ops b event order precision).focus.finish := by
  refine SamePending.trans ?_ (finish_sameOrders _).pending
  have hfor := positionFor_sameOrders b event order
  unfold routeOf at hroute
  dsimp only at hroute
  unfold handleLoaded
  dsimp only
  rw [if_neg htype]
  by_cases hclosing : order.closingOrder = true
  · rw [if_pos hclosing] at hroute ⊢
    have hmatch : (matchClosing ops event order
        (sync event order (positionFor b event order))).2.isNone = false := by
      by_contra hnone
      rw [if_pos (by simpa using hnone)] at hroute
      exact hroute rfl
    obtain ⟨closeId, hclose⟩ := Option.isSome_iff_exists.mp (Option.isNone_eq_false_iff.mp hmatch)
    unfold closingOn
    dsimp only
    rw [hclose]
    refine SamePending.trans ?_ (pending_andThen fun g => (endIfClosed_sameOrders event _ g).pending)
    show SamePending b (nodeClose env event order closeId precision _).focus.book
    exact ((hfor.trans (sync_sameOrders event order _)).pending.trans
      (matchClosing_pending ..)).trans (nodeClose_sameOrders ..).pending
  · rw [if_neg hclosing] at hroute ⊢
    by_cases hended : order.orderId ∈ b.endedEntries ∧ !isFill event.executionType
    · rw [if_pos hended]
      exact .refl _
    · rw [if_neg hended] at hroute ⊢
      unfold openingOn
      dsimp only
      generalize takesEntry event order (positionFor b event order).position = learnt at hroute ⊢
      refine SamePending.trans ?_ (pending_andThen fun g => openedTail_pending g)
      show SamePending b (openingRecords env event order precision learnt _).focus.book
      unfold openingRecords
      split
      · exact ((hfor.trans (opened_sameOrders ..)).trans (entryEvent_sameOrders ..)).pending
      · rename_i hforeign
        rw [if_neg hforeign] at hroute
        exact absurd rfl hroute

end

/-! ### On an unloaded symbol, and of other orders -/

/-- An order on an unloaded symbol changes its own exposure only, and an end takes it away. -/
theorem trackUnloaded_pending (event : ProtoOAExecutionEvent) (order : ProtoOAOrder) (b : Book) :
    (trackUnloaded event order b).openOrders = b.openOrders ∧
      (trackUnloaded event order b).reported = b.reported ∧
      (∀ x, x ≠ order.orderId → orderExposure (trackUnloaded event order b) x = orderExposure b x) ∧
      (event.executionType ≠ .orderAccepted → event.executionType ≠ .orderReplaced →
        orderExposure b order.orderId = none →
        orderExposure (trackUnloaded event order b) order.orderId = none) ∧
      (endsOrder event.executionType = true → order.orderType ≠ .stopLossTakeProfit →
        orderExposure (trackUnloaded event order b) order.orderId = none) := by
  -- the sync before it touches positions only
  have hsynced : SamePending b (if event.position?.isSome || isFill event.executionType then
      (sync event order (positionFor b event order)).finish else b) := by
    -- accepted or replaced, partly filled, or ended
    split
    · exact ((positionFor_sameOrders b event order).trans ((sync_sameOrders event order _).trans
        (finish_sameOrders _))).pending
    · exact .refl b
  unfold trackUnloaded orderExposure
  dsimp only
  generalize (if event.position?.isSome || isFill event.executionType then
    (sync event order (positionFor b event order)).finish else b) = c at hsynced ⊢
  rw [← hsynced.openOrders, ← hsynced.reported, ← hsynced.unloadedOrders]
  have hset (x : ℤ) (hx : x ≠ order.orderId) (e : Exposure) :
      (c.unloadedOrders.set order.orderId e).get? x = c.unloadedOrders.get? x :=
    Dict.get?_set_of_ne _ _ (Ne.symm hx)
  have herase (x : ℤ) (hx : x ≠ order.orderId) :
      (c.unloadedOrders.erase order.orderId).get? x = c.unloadedOrders.get? x := by
    rw [Dict.get?_erase, if_neg hx]
  split
  · rename_i hprotective
    exact ⟨rfl, rfl, fun _ _ => rfl, fun _ _ h => h, fun _ h => absurd hprotective h⟩
  · split
    · rename_i hkind
      rw [Bool.or_eq_true, decide_eq_true_eq, decide_eq_true_eq] at hkind
      refine ⟨rfl, rfl, fun x hx => hset x hx _, fun haccepted hreplaced _ => ?_,
        fun hends _ => ?_⟩
      · exact absurd hkind (not_or.mpr ⟨haccepted, hreplaced⟩)
      · rcases hkind with h | h <;> simp [endsOrder, endedEventKind, h] at hends
    · split
      · rename_i held hkind hheld
        refine ⟨rfl, rfl, fun x hx => ?_, fun _ _ hnone => ?_, fun hends _ => ?_⟩
        · split
          · exact hset x hx _
          · exact herase x hx
        · rw [hnone] at hheld
          cases hheld
        · simp [endsOrder, endedEventKind, hkind] at hends
      · split
        · exact ⟨rfl, rfl, herase, fun _ _ _ => Dict.get?_erase_self ..,
            fun _ _ => Dict.get?_erase_self ..⟩
        · rename_i hstands
          exact ⟨rfl, rfl, fun _ _ => rfl, fun _ _ h => h, fun hends _ => absurd hends hstands⟩

/-- The same of one order. -/
structure SameOrder (x : ℤ) (b b' : Book) : Prop where
  openOrder : openOrder b' x = openOrder b x
  exposure : orderExposure b' x = orderExposure b x
  reported : x ∈ b'.reported ↔ x ∈ b.reported

/-- Books that hold the same orders agree on each. -/
theorem SamePending.sameOrder {b b' : Book} (h : SamePending b b') (x : ℤ) : SameOrder x b b' := by
  refine ⟨?_, ?_, ?_⟩
  · unfold openOrder
    rw [h.openOrders]
  · unfold orderExposure
    rw [h.unloadedOrders]
  · rw [h.reported]

/-- Agreeing on one order carries from book to book. -/
theorem SameOrder.trans {x : ℤ} {b b' b'' : Book} (h : SameOrder x b b') (h' : SameOrder x b' b'') :
    SameOrder x b b'' :=
  ⟨h'.openOrder.trans h.openOrder, h'.exposure.trans h.exposure, h'.reported.trans h.reported⟩

/-- An event of another order leaves an order as it is. -/
theorem sameOrder_rule {x : ℤ} {event : ProtoOAExecutionEvent} {order : ProtoOAOrder}
    (hx : x ≠ order.orderId) : BookRule event order (SameOrder x) where
  trans h h' := h.trans h'
  same h := h.pending.sameOrder x
  keeps b known := by
    obtain ⟨hunloaded, hreported⟩ := keepOpenOrder_unloaded event order known b
    refine ⟨?_, ?_, ?_⟩
    · unfold openOrder keepOpenOrder
      dsimp only
      repeat' split
      all_goals first
        | rfl
        | exact Dict.get?_set_of_ne _ _ (Ne.symm hx)
        | rw [Dict.get?_erase, if_neg hx]
    · unfold orderExposure
      rw [hunloaded]
    · rw [hreported]
  reports b := by
    refine ⟨rfl, rfl, ?_⟩
    rw [Finset.mem_insert]
    exact ⟨fun h => h.resolve_left hx, .inr⟩
  takes _ _ _ _ _ := ⟨rfl, rfl, Iff.rfl⟩

/-! ## A run, with what was applied of one order -/

/-- What a run has applied of one order's events, and what it started from. -/
structure PendingLog where
  /-- An event that ends the order was applied. -/
  ended : Bool := false
  /-- The order's states of the events applied, and the one held at the start. -/
  states : List ProtoOAOrder := []
  /-- At the start the order was known from reports, and no state of it held. -/
  missing : Bool := false

/-- The log at the start of a run. -/
def PendingLog.start (b : Book) (orderId : ℤ) : PendingLog where
  states := (openOrder b orderId).toList
  missing := orderId ∈ b.reported && (openOrder b orderId).isNone

/-- The log once an event of the order is applied. -/
def PendingLog.note (log : PendingLog) (event : ProtoOAExecutionEvent) (order : ProtoOAOrder) :
    PendingLog :=
  { log with
    ended := log.ended || endsOrder event.executionType
    states := order :: log.states }

/-- The log after a call: an event of the order is noted if it was applied. -/
def PendingLog.after (log : PendingLog) (orderId : ℤ) (b : Book) : Operation → PendingLog
  | .apply env ops event =>
    match event.order? with
    | none => log
    | some order =>
      if order.orderId = orderId ∧ Handles b event order ∧ (apply env ops b event).2.isOk then
        log.note event order
      else log
  | _ => log

/-- The book, with the log of one order. -/
def tracked (orderId : ℤ) : Machine (Book × PendingLog) Operation Record where
  step s operation :=
    let done := machine.step s.1 operation
    ((done.1, s.2.after orderId s.1 operation), done.2)

/-- What is held of a pending order: nothing once it ended, else the newest state applied. -/
structure PendingKept (orderId : ℤ) (s : Book × PendingLog) : Prop where
  ended : s.2.ended = true → openOrder s.1 orderId = none ∧ orderExposure s.1 orderId = none
  newest : s.2.ended = false → ∀ held, openOrder s.1 orderId = some held →
    held ∈ s.2.states ∧
      ∀ state ∈ s.2.states, state.utcLastUpdateTimestamp ≤ held.utcLastUpdateTimestamp
  held : s.2.ended = false → s.2.missing = false → orderId ∈ s.1.reported →
    (openOrder s.1 orderId).isSome

/-! ## The events that reach what they are about -/

/-- An event that does not reach the state held neither ends nor outdates it. -/
def Leaves (b : Book) (event : ProtoOAExecutionEvent) (order : ProtoOAOrder) : Prop :=
  ∀ held ∈ openOrder b order.orderId, endsOrder event.executionType = false ∧
    order.utcLastUpdateTimestamp ≤ held.utcLastUpdateTimestamp

instance (b : Book) (event : ProtoOAExecutionEvent) (order : ProtoOAOrder) :
    Decidable (Leaves b event order) := by
  unfold Leaves
  infer_instance

/-- On an unloaded symbol: nothing brings an order back after its end. -/
def RegularUnloaded (s : Book × PendingLog) (event : ProtoOAExecutionEvent) (order : ProtoOAOrder) :
    Prop :=
  Leaves s.1 event order ∧
    (s.2.ended = true →
      event.executionType ≠ .orderAccepted ∧ event.executionType ≠ .orderReplaced)

/-- Of one of the node's own orders: nothing tells its acceptance after its end. -/
def RegularOwn (s : Book × PendingLog) (event : ProtoOAExecutionEvent) (order : ProtoOAOrder) :
    Prop :=
  Leaves s.1 event order ∧
    (s.2.ended = true → opensOrder event.executionType = true → acceptanceTold s.1 event order = true)

/-- Of an order known from reports: after its end what would open it finds it reported, and before it
the states taken are the newest, can be told, and none that is newer is left out. -/
def RegularExternal (env : Env) (precision : ℕ) (s : Book × PendingLog)
    (event : ProtoOAExecutionEvent) (order : ProtoOAOrder) : Prop :=
  if s.2.ended then
    opensOrder event.executionType = true → order.orderId ∈ s.1.reported ∨
      event.executionType = .orderFilled ∧ order.tradeData.volume ≤ event.deal.filledVolume
  else if takesState event order s.1 then
    readable env event order precision s.1 = true ∧
      (order.orderId ∉ s.1.reported →
        ∀ state ∈ s.2.states, state.utcLastUpdateTimestamp ≤ order.utcLastUpdateTimestamp)
  else if endsOrder event.executionType then
    event.executionType = .orderFilled → (openOrder s.1 order.orderId).isSome ∨
        order.orderId ∉ s.1.reported ∧
          (fillOf event.deal precision env.moneyDigits).isOk = true →
      readable env event order precision s.1 = true
  else Leaves s.1 event order

/-- An event of the order reaches what it is about. -/
def RegularEvent (env : Env) (ops : Operations) (s : Book × PendingLog)
    (event : ProtoOAExecutionEvent) (order : ProtoOAOrder) : Prop :=
  isPending order.orderType = true ∧
    match env.pricePrecision order.tradeData.symbolId with
    | none => RegularUnloaded s event order
    | some precision =>
      (endsOrder event.executionType = true → orderExposure s.1 order.orderId = none) ∧
        match routeOf ops s.1 event order with
        | .external => RegularExternal env precision s event order
        | .own => RegularOwn s event order
        | .passed => Leaves s.1 event order

/-- Each event of the order that a call handles reaches what it is about. -/
def Regular (orderId : ℤ) (s : Book × PendingLog) : Operation → Prop
  | .apply env ops event => ∀ order ∈ event.order?, order.orderId = orderId →
    Handles s.1 event order → RegularEvent env ops s event order
  | _ => True

instance (env : Env) (precision : ℕ) (s : Book × PendingLog) (event : ProtoOAExecutionEvent)
    (order : ProtoOAOrder) : Decidable (RegularExternal env precision s event order) := by
  unfold RegularExternal
  infer_instance

instance (s : Book × PendingLog) (event : ProtoOAExecutionEvent) (order : ProtoOAOrder) :
    Decidable (RegularUnloaded s event order) := inferInstanceAs (Decidable (_ ∧ _))

instance (s : Book × PendingLog) (event : ProtoOAExecutionEvent) (order : ProtoOAOrder) :
    Decidable (RegularOwn s event order) := inferInstanceAs (Decidable (_ ∧ _))

instance (env : Env) (ops : Operations) (s : Book × PendingLog) (event : ProtoOAExecutionEvent)
    (order : ProtoOAOrder) : Decidable (RegularEvent env ops s event order) := by
  unfold RegularEvent
  cases env.pricePrecision order.tradeData.symbolId with
  | none => infer_instance
  | some precision =>
    dsimp only
    cases routeOf ops s.1 event order <;> infer_instance

instance (orderId : ℤ) (s : Book × PendingLog) (operation : Operation) :
    Decidable (Regular orderId s operation) :=
  match operation with
  | .apply env ops event => inferInstanceAs (Decidable (∀ order ∈ event.order?,
      order.orderId = orderId → Handles s.1 event order → RegularEvent env ops s event order))
  | .trailingStopMoved .. => inferInstanceAs (Decidable True)
  | .entryFound .. => inferInstanceAs (Decidable True)
  | .cancelLeg .. => inferInstanceAs (Decidable True)
  | .rejectLegs .. => inferInstanceAs (Decidable True)
  | .matchClose .. => inferInstanceAs (Decidable True)
  | .endKeep .. => inferInstanceAs (Decidable True)
  | .closedInReconciliation .. => inferInstanceAs (Decidable True)

end VenueBook

end NautilusCtrader
