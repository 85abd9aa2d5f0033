import NautilusCtrader.VenueBook.ClosedPosition

/-!
# Which message's levels a position ends with

A protective order's new state and a trailing move both write a position's levels. The book compares
the broker's times of a state with the moves before it, and of a move with the states before it, but
never two states or two moves. So a position ends with the levels of the last messages that count, and
those are the newest ones only for some orders of the messages.
-/

namespace NautilusCtrader

open Common Common.Machine

/-! ## Messages about levels -/

/-- A message about the levels of one protective order: a new state of it, which states a stop-loss,
or a trailing move of its stop-loss. -/
inductive LevelMessage
  | state (ts : ℤ) (stopLoss : ℚ) (takeProfit : Option ℚ)
  | move (ts : ℤ) (stopLoss : ℚ)
deriving DecidableEq, Repr

namespace LevelMessage

/-- The broker's time of a message. -/
def ts : LevelMessage → ℤ
  | state ts _ _ => ts
  | move ts _ => ts

def stopLoss : LevelMessage → ℚ
  | state _ stopLoss _ => stopLoss
  | move _ stopLoss => stopLoss

def takeProfit : LevelMessage → Option ℚ
  | state _ _ takeProfit => takeProfit
  | move _ _ => none

def isState : LevelMessage → Bool
  | state .. => true
  | move .. => false

/-- Whether a protective state among `earlier` is newer than `ts`. -/
def passedByState (earlier : List LevelMessage) (ts : ℤ) : Bool :=
  earlier.any fun m => m.isState && ts < m.ts

/-- Whether `m` is a trailing move that counts after `earlier`: no newer protective state came before
it. Where the position is `shut`, protective states are not applied. -/
def movesStop (shut : Bool) (earlier : List LevelMessage) (m : LevelMessage) : Bool :=
  !m.isState && (shut || !passedByState earlier m.ts)

/-- Whether a trailing move among `earlier` that counts is newer than `ts`. -/
def passedByMove (shut : Bool) (earlier : List LevelMessage) (ts : ℤ) : Bool :=
  (kept (movesStop shut) [] earlier).any fun m => ts < m.ts

/-- Whether `m` counts for the stop-loss after `earlier`: a state does unless a newer move that counts
came before it. -/
def setsStop (shut : Bool) (earlier : List LevelMessage) (m : LevelMessage) : Bool :=
  if m.isState then !shut && !passedByMove shut earlier m.ts else movesStop shut earlier m

/-- Whether `m` counts for the take-profit: every protective state does. -/
def setsTarget (shut : Bool) (_ : List LevelMessage) (m : LevelMessage) : Bool := !shut && m.isState

/-- The stop-loss the last of `messages` that counts states, else the one held. -/
def lastStop (shut : Bool) (held : Levels) (messages : List LevelMessage) : Option ℚ :=
  lastRead (fun m => some m.stopLoss) held.stopLoss (kept (setsStop shut) [] messages)

/-- The take-profit the last protective state among `messages` states, else the one held. -/
def lastTarget (shut : Bool) (held : Levels) (messages : List LevelMessage) : Option ℚ :=
  lastRead takeProfit held.takeProfit (kept (setsTarget shut) [] messages)

/-- The levels of the newest: the stop-loss of the newest message, and the take-profit of the newest
protective state. Without one, the level held. -/
def newestLevels (held : Levels) (messages : List LevelMessage) : Levels where
  stopLoss := ((latest ts messages).map fun m => some m.stopLoss).getD held.stopLoss
  takeProfit := ((latest ts (messages.filter isState)).map takeProfit).getD held.takeProfit

/-- The messages that count last state what the newest ones state. -/
structure Settled (shut : Bool) (held : Levels) (messages : List LevelMessage) : Prop where
  stopLoss : lastStop shut held messages = (newestLevels held messages).stopLoss
  takeProfit : lastTarget shut held messages = (newestLevels held messages).takeProfit

/-- A message that comes may be a newer state. -/
theorem passedByState_concat (earlier : List LevelMessage) (m : LevelMessage) (ts : ℤ) :
    passedByState (earlier ++ [m]) ts = (passedByState earlier ts || (m.isState && ts < m.ts)) := by
  simp [passedByState]

/-- Or a newer move that counts. -/
theorem passedByMove_concat (shut : Bool) (earlier : List LevelMessage) (m : LevelMessage) (ts : ℤ) :
    passedByMove shut (earlier ++ [m]) ts =
      (passedByMove shut earlier ts || (movesStop shut earlier m && ts < m.ts)) := by
  unfold passedByMove
  rw [kept_concat, List.any_append]
  split
  case isTrue h => simp [h]
  case isFalse h => simp [h]

/-- No message of a list is newer than one that is newer than them all. -/
theorem not_passed (shut : Bool) {earlier : List LevelMessage} {ts : ℤ}
    (h : ∀ m ∈ earlier, m.ts < ts) :
    passedByState earlier ts = false ∧ passedByMove shut earlier ts = false := by
  simp only [passedByState, passedByMove, List.any_eq_false, Bool.and_eq_true, decide_eq_true_eq]
  exact ⟨fun m hm hpassed => absurd (h m hm) hpassed.2.not_gt,
    fun m hm hpassed => absurd (h m (mem_of_mem_kept hm)) hpassed.not_gt⟩

/-- A message that is newer than all before it is the latest. -/
theorem latest_concat {earlier : List LevelMessage} {m : LevelMessage}
    (h : ∀ x ∈ earlier, x.ts < m.ts) : latest ts (earlier ++ [m]) = some m := by
  unfold latest
  rw [List.argmax_concat]
  cases hmax : earlier.argmax ts with
  | none => rfl
  | some x => exact if_pos (h x (List.argmax_mem hmax))

/-- Messages that come in the order they were made are settled. -/
theorem settled_of_sorted (held : Levels) {messages : List LevelMessage}
    (h : messages.Pairwise fun m m' => m.ts < m'.ts) : Settled false held messages := by
  induction messages using List.reverseRecOn with
  | nil => exact ⟨rfl, rfl⟩
  | append_singleton earlier m ih =>
    obtain ⟨hearlier, -, hlast⟩ := List.pairwise_append.mp h
    replace hlast : ∀ x ∈ earlier, x.ts < m.ts := fun x hx => hlast x hx m (List.mem_singleton_self m)
    obtain ⟨hstate, hmove⟩ := not_passed false hlast
    have hsets : setsStop false earlier m = true := by
      unfold setsStop movesStop
      cases m <;> simp [isState, hstate, hmove]
    refine ⟨?_, ?_⟩
    · unfold lastStop newestLevels
      rw [kept_concat, if_pos hsets, lastRead_append, latest_concat hlast]
      rfl
    · have htarget : setsTarget false earlier m = m.isState := rfl
      unfold lastTarget newestLevels
      rw [kept_concat, htarget, List.filter_append]
      cases hm : m.isState with
      | false => simpa [hm, lastTarget, newestLevels] using (ih hearlier).takeProfit
      | true =>
        have hlast' : ∀ x ∈ earlier.filter isState, x.ts < m.ts :=
          fun x hx => hlast x (List.mem_of_mem_filter hx)
        rw [if_pos rfl, lastRead_append, List.filter_cons_of_pos hm, List.filter_nil,
          latest_concat hlast']
        rfl

end LevelMessage

open LevelMessage VenueBook

/-! ## A position between two messages -/

/-- The fields that decide how a position takes a message about its levels are the same. -/
structure SameLevels (p q : Position) : Prop where
  symbolId : q.symbolId = p.symbolId
  protectiveOrderId : q.protectiveOrderId = p.protectiveOrderId
  retiredProtectiveIds : q.retiredProtectiveIds = p.retiredProtectiveIds
  levels : q.levels = p.levels
  trailedMs : q.trailedMs = p.trailedMs
  protectiveMs : q.protectiveMs = p.protectiveMs

/-- A position has its own levels. -/
theorem SameLevels.refl (p : Position) : SameLevels p p := ⟨rfl, rfl, rfl, rfl, rfl, rfl⟩

/-- What leaves the levels twice leaves them. -/
theorem SameLevels.trans {p q r : Position} (h : SameLevels p q) (h' : SameLevels q r) :
    SameLevels p r where
  symbolId := h'.symbolId.trans h.symbolId
  protectiveOrderId := h'.protectiveOrderId.trans h.protectiveOrderId
  retiredProtectiveIds := h'.retiredProtectiveIds.trans h.retiredProtectiveIds
  levels := h'.levels.trans h.levels
  trailedMs := h'.trailedMs.trans h.trailedMs
  protectiveMs := h'.protectiveMs.trans h.protectiveMs

/-- The levels are part of a position's outline. -/
theorem SameLevels.of_outline {p q : Position} (h : q.outline = p.outline) : SameLevels p q where
  symbolId := show q.outline.symbolId = p.outline.symbolId from h ▸ rfl
  protectiveOrderId := show q.outline.protectiveOrderId = p.outline.protectiveOrderId from h ▸ rfl
  retiredProtectiveIds :=
    show q.outline.retiredProtectiveIds = p.outline.retiredProtectiveIds from h ▸ rfl
  levels := show q.outline.levels = p.outline.levels from h ▸ rfl
  trailedMs := show q.outline.trailedMs = p.outline.trailedMs from h ▸ rfl
  protectiveMs := show q.outline.protectiveMs = p.outline.protectiveMs from h ▸ rfl

/-- The position `p`, whose protective order is `orderId`, after `messages` on `start`. -/
structure Follows (shut : Bool) (start : Position) (orderId : ℤ) (messages : List LevelMessage)
    (p : Position) : Prop where
  symbolId : p.symbolId = start.symbolId
  protectiveOrderId : p.protectiveOrderId = some orderId
  current : orderId ∉ p.retiredProtectiveIds
  stateMs : ∀ ts, start.protectiveMs < ts →
    (ts < p.protectiveMs ↔ shut = false ∧ passedByState messages ts)
  moveMs : ∀ ts, start.trailedMs < ts → (ts < p.trailedMs ↔ passedByMove shut messages ts)
  stopped : kept (movesStop shut) [] messages ≠ [] → p.levels.stopLoss.isSome

namespace Follows

variable {shut : Bool} {start p q : Position} {orderId : ℤ} {messages : List LevelMessage}

/-- What a position follows is read off its levels. -/
theorem congr (h : Follows shut start orderId messages p) (hsame : SameLevels p q) :
    Follows shut start orderId messages q where
  symbolId := hsame.symbolId.trans h.symbolId
  protectiveOrderId := hsame.protectiveOrderId.trans h.protectiveOrderId
  current := hsame.retiredProtectiveIds ▸ h.current
  stateMs := hsame.protectiveMs ▸ h.stateMs
  moveMs := hsame.trailedMs ▸ h.moveMs
  stopped := hsame.levels ▸ h.stopped

/-- A position follows no message at the start. -/
theorem nil (hcurrent : Current p) (hid : p.protectiveOrderId = some orderId) :
    Follows shut p orderId [] p where
  symbolId := rfl
  protectiveOrderId := hid
  current := hcurrent orderId hid
  stateMs ts hts := iff_of_false hts.not_gt (by simp [passedByState])
  moveMs ts hts := iff_of_false hts.not_gt (by simp [passedByMove, kept])
  stopped h := absurd rfl h

/-- A message the position is not shown. -/
theorem ignores (h : Follows shut start orderId messages p) {m : LevelMessage}
    (hstate : shut = true ∨ m.isState = false) (hmove : movesStop shut messages m = false) :
    Follows shut start orderId (messages ++ [m]) p where
  symbolId := h.symbolId
  protectiveOrderId := h.protectiveOrderId
  current := h.current
  stateMs ts hts := by
    rw [h.stateMs ts hts, passedByState_concat]
    rcases hstate with rfl | hstate
    · simp
    · simp [hstate]
  moveMs ts hts := by
    rw [h.moveMs ts hts, passedByMove_concat, hmove]
    simp
  stopped := by
    rw [kept_concat, hmove, if_neg (by simp), List.append_nil]
    exact h.stopped

/-- Whether a trailing move counts is read from the newest state applied. -/
theorem movesStop_iff (h : Follows shut start orderId messages p) {ts : ℤ} (stop : ℚ)
    (hlater : start.protectiveMs < ts) :
    movesStop shut messages (.move ts stop) = true ↔ ¬ ts < p.protectiveMs := by
  rw [h.stateMs ts hlater]
  cases shut <;> simp [movesStop, isState, LevelMessage.ts]

/-- The position takes a trailing move. -/
theorem trail (h : Follows shut start orderId messages p) {ts : ℤ} {stop : ℚ}
    (hcounts : movesStop shut messages (.move ts stop) = true) :
    Follows shut start orderId (messages ++ [.move ts stop]) (VenueBook.trail stop ts p) where
  symbolId := h.symbolId
  protectiveOrderId := h.protectiveOrderId
  current := h.current
  stateMs ts' hts := by
    rw [passedByState_concat]
    show ts' < p.protectiveMs ↔ _
    simpa [isState] using h.stateMs ts' hts
  moveMs ts' hts := by
    rw [passedByMove_concat, hcounts]
    show ts' < max p.trailedMs ts ↔ _
    rw [lt_max_iff, h.moveMs ts' hts, Bool.true_and, Bool.or_eq_true, decide_eq_true_eq]
    rfl
  stopped _ := rfl

/-- The position takes a new state of its protective order. -/
theorem setProtective (h : Follows false start orderId messages p) {order : ProtoOAOrder} {ts : ℤ}
    (stop : ℚ) (target : Option ℚ) (hid : order.orderId = orderId)
    (hts : order.utcLastUpdateTimestamp? = some ts) (hlater : start.trailedMs < ts) :
    let m := LevelMessage.state ts stop target
    let q := VenueBook.setProtective order ⟨some stop, target⟩ p
    Follows false start orderId (messages ++ [m]) q ∧
      q.levels.stopLoss = (if setsStop false messages m then some stop else p.levels.stopLoss) ∧
      q.levels.takeProfit = target := by
  intro m q
  have hretired : q.retiredProtectiveIds = p.retiredProtectiveIds := by
    simp only [q, VenueBook.setProtective, takeProtective, h.protectiveOrderId]
    exact if_neg (by simp [hid])
  have hms : q.protectiveMs = max p.protectiveMs ts := by
    simp only [q, VenueBook.setProtective, hts]
  have hovertaken : overtaken order p = passedByMove false messages ts := by
    unfold overtaken
    rw [hts]
    rw [Bool.eq_iff_iff]
    exact decide_eq_true_iff.trans (h.moveMs ts hlater)
  have hlevels : q.levels = ⟨if setsStop false messages m then some stop else p.levels.stopLoss,
      target⟩ := by
    show levelsAfter order ⟨some stop, target⟩ p = _
    have hsets : setsStop false messages m = !passedByMove false messages ts := by
      simp [setsStop, isState, m, LevelMessage.ts]
    unfold levelsAfter
    rw [hovertaken, hsets, h.protectiveOrderId, hid]
    cases hpassed : passedByMove false messages ts with
    | false => simp
    | true =>
      -- A move that counts left a stop-loss.
      have hstopped := h.stopped fun hnone => by
        rw [passedByMove, hnone] at hpassed
        cases hpassed
      simp [hstopped]
  refine ⟨⟨h.symbolId, congrArg some hid, hretired ▸ h.current, fun ts' hts' => ?_,
    fun ts' hts' => ?_, fun hkept => ?_⟩, congrArg ByLevel.stopLoss hlevels,
    congrArg ByLevel.takeProfit hlevels⟩
  · have hnewer : (m.isState && decide (ts' < m.ts)) = true ↔ ts' < ts := decide_eq_true_iff
    rw [hms, passedByState_concat, lt_max_iff, h.stateMs ts' hts', Bool.or_eq_true, hnewer]
    simp
  · rw [passedByMove_concat]
    show ts' < p.trailedMs ↔ _
    simpa [movesStop, m, isState] using h.moveMs ts' hts'
  · rw [hlevels]
    show (ite _ _ _ : Option ℚ).isSome
    split
    · rfl
    · rw [kept_concat] at hkept
      exact h.stopped (by simpa [movesStop, m, isState] using hkept)

end Follows

namespace VenueBook

/-! ## The messages of a run -/

/-- What a call states about the levels of the position's protective order `orderId`. -/
inductive States (positionId orderId symbolId : ℤ) : Operation → LevelMessage → Prop
  | state {env : Env} {ops : Operations} {event : ProtoOAExecutionEvent} {order : ProtoOAOrder}
      {ts : ℤ} {precision : ℕ} {stop : ℚ} {target : Option ℚ} (horder : event.order? = some order)
      (hposition : order.positionId? = some positionId)
      (htype : order.orderType = .stopLossTakeProfit) (hid : order.orderId = orderId)
      (hkind : event.executionType = .orderAccepted ∨ event.executionType = .orderReplaced)
      (hts : order.utcLastUpdateTimestamp? = some ts)
      (hprecision : env.pricePrecision order.tradeData.symbolId = some precision)
      (hlevels : levelsOf order precision = .ok ⟨some stop, target⟩) :
      States positionId orderId symbolId (.apply env ops event) (.state ts stop target)
  | move {env : Env} {event : ProtoOATrailingSLChangedEvent} {precision : ℕ} {stop : ℚ}
      (hposition : event.positionId = positionId) (hid : event.orderId = orderId)
      (hprecision : env.pricePrecision symbolId = some precision)
      (hprice : priceOf event.stopPrice precision = .ok stop) :
      States positionId orderId symbolId (.trailingStopMoved env event)
        (.move event.utcLastUpdateTimestamp stop)

/-- A call with the message about levels it brings. -/
structure Arrival (positionId orderId symbolId : ℤ) where
  operation : Operation
  message : LevelMessage
  states : States positionId orderId symbolId operation message

/-- The key under which the book would have seen a call before. -/
def Operation.key? : Operation → Option SeenKey
  | .apply _ _ event => event.order?.map (keyOf event)
  | .trailingStopMoved _ event =>
    some (.trailing event.orderId event.utcLastUpdateTimestamp event.stopPrice)
  | _ => none

/-- The book after `arrivals`. -/
def arrived {x orderId symbolId : ℤ} (b : Book) (arrivals : List (Arrival x orderId symbolId)) : Book :=
  machine.after b (arrivals.map Arrival.operation)

/-- The levels the book holds of a position. -/
def levelsHeld (b : Book) (positionId : ℤ) : Option Levels :=
  (b.positions.get? positionId).map Position.levels

/-- The calls are further ones: none repeats another or one the book has seen, and all are stamped
later than the state of the levels that `p` holds. -/
structure Further {x orderId symbolId : ℤ} (b : Book) (p : Position)
    (arrivals : List (Arrival x orderId symbolId)) : Prop where
  fresh : ∀ a ∈ arrivals, ∀ key, a.operation.key? = some key → holdsKey b key = false
  distinct : (arrivals.map fun a => a.operation.key?).Nodup
  laterState : ∀ a ∈ arrivals, p.protectiveMs < a.message.ts
  laterMove : ∀ a ∈ arrivals, p.trailedMs < a.message.ts

/-! ## One message -/

/-- A sync leaves the levels. -/
theorem sync_sameLevels (event : ProtoOAExecutionEvent) (order : ProtoOAOrder) (f : Focus) :
    SameLevels f.position (sync event order f).position := by
  unfold sync
  split
  · unfold syncState
    dsimp only
    split <;> exact ⟨rfl, rfl, rfl, rfl, rfl, rfl⟩
  · split
    · exact .refl _
    · dsimp only
      split
      · exact .refl _
      · unfold syncDeal
        split
        · exact ⟨rfl, rfl, rfl, rfl, rfl, rfl⟩
        · split <;> exact ⟨rfl, rfl, rfl, rfl, rfl, rfl⟩

/-- What `apply` makes of the book's marks and of the position, for an event whose handling tells. -/
theorem apply_told {env : Env} {ops : Operations} {b : Book} {event : ProtoOAExecutionEvent}
    {order : ProtoOAOrder} (h : Handles b event order) {records : List Record}
    (hok : (handle env ops b event order).2 = .ok records) :
    (apply env ops b event).1.positions = (handle env ops b event order).1.positions ∧
      (apply env ops b event).1.seen = insert (keyOf event order) b.seen ∧
      (apply env ops b event).1.closedInReconciliation = b.closedInReconciliation := by
  have hmarks := handle_marks env ops b event order
  rw [apply_of_handles h, hok]
  obtain ⟨-, hseen, -, hclosed⟩ := releaseKeep_marks event order (markDeal event
    { (handle env ops b event order).1 with
      seen := insert (keyOf event order) (handle env ops b event order).1.seen })
  obtain ⟨-, hseen', hclosed'⟩ := markDeal_marks event
    { (handle env ops b event order).1 with
      seen := insert (keyOf event order) (handle env ops b event order).1.seen }
  refine ⟨markApplied_positions .., ?_, ?_⟩
  · exact hseen.trans (hseen'.trans (by rw [hmarks.seen]))
  · exact hclosed.trans (hclosed'.trans hmarks.closedInReconciliation)

/-- What an event that makes `q` of a position by its protective order makes of the book, before the
event is marked. -/
theorem handle_protective {env : Env} {ops : Operations} {b : Book} {event : ProtoOAExecutionEvent}
    {order : ProtoOAOrder} {p q : Position} {x : ℤ} {precision : ℕ}
    (hposition : order.positionId? = some x) (hp : b.positions.get? x = some p)
    (htype : order.orderType = .stopLossTakeProfit)
    (hprecision : env.pricePrecision order.tradeData.symbolId = some precision)
    (hchanged : protectiveOn env ops event order precision ⟨b, p, some x⟩ =
      protectiveChanged env ops event order p.levels ⟨b, q, some x⟩) :
    ∃ q' records, (handle env ops b event order).2 = .ok records ∧
      (handle env ops b event order).1.positions.get? x = some q' ∧ SameLevels q q' := by
  have hfor : positionFor b event order = ⟨b, p, some x⟩ := by
    unfold positionFor
    rw [hposition]
    simp only [hp]
  have hloaded : handleLoaded env ops b event order precision =
      protectiveChanged env ops event order p.levels ⟨b, q, some x⟩ := by
    unfold handleLoaded
    rw [hfor]
    dsimp only
    rw [if_pos htype]
    exact hchanged
  have hdone : handle env ops b event order =
      ((handleLoaded env ops b event order precision).focus.finish,
        (handleLoaded env ops b event order precision).records) := by
    unfold handle
    rw [hprecision]
  rw [hdone, hloaded]
  let f : Focus := ⟨b, q, some x⟩
  refine ⟨_, _, rfl, ?_, (sync_sameLevels event order f).trans
    (.of_outline (outline_protectiveChanged env ops event order p.levels f))⟩
  have hstored : (protectiveChanged env ops event order p.levels f).focus.stored = some x :=
    (sync_place event order f).1
  show (protectiveChanged env ops event order p.levels f).focus.finish.positions.get? x = _
  simp only [Focus.finish, hstored, Dict.get?_set_self]

/-- What a new state of the protective order makes of the book, before the event is marked. -/
theorem handle_states {env : Env} {ops : Operations} {b : Book} {event : ProtoOAExecutionEvent}
    {order : ProtoOAOrder} {p : Position} {x : ℤ} {precision : ℕ} {stated : Levels}
    (hposition : order.positionId? = some x) (hp : b.positions.get? x = some p)
    (htype : order.orderType = .stopLossTakeProfit) (hstate : statesLevels event order p)
    (hprecision : env.pricePrecision order.tradeData.symbolId = some precision)
    (hstated : levelsOf order precision = .ok stated) :
    ∃ q records, (handle env ops b event order).2 = .ok records ∧
      (handle env ops b event order).1.positions.get? x = some q ∧
      SameLevels (setProtective order stated p) q :=
  handle_protective hposition hp htype hprecision (protectiveOn_states hstate hstated)

/-- The book after the messages of `earlier`, from `start` with the position `p` under `x`. -/
structure Arrived {x orderId : ℤ} (start : Book) (p : Position)
    (earlier : List (Arrival x orderId p.symbolId)) (b : Book) : Prop where
  shut : b.closedInReconciliation = start.closedInReconciliation
  seen : ∀ key, holdsKey b key → holdsKey start key ∨ some key ∈ earlier.map (·.operation.key?)
  held : ∃ q, b.positions.get? x = some q ∧
    Follows (x ∈ start.closedInReconciliation) p orderId (earlier.map Arrival.message) q

/-- A key that is held was held before, or is the one just seen. -/
theorem holdsKey_insert {b b' : Book} {key key' : SeenKey} (hseen : b'.seen = insert key b.seen)
    (h : holdsKey b' key') : holdsKey b key' ∨ key' = key := by
  unfold holdsKey at h ⊢
  rw [hseen] at h
  simp only [Bool.and_eq_true, decide_eq_true_eq, Finset.mem_insert] at h ⊢
  rcases h with ⟨hreflexive, rfl | hmem⟩
  · exact .inr rfl
  · exact .inl ⟨hreflexive, hmem⟩

/-- What the book holds of a position's stop-loss and of its take-profit. -/
def stopHeld (b : Book) (positionId : ℤ) : Option ℚ := (levelsHeld b positionId).bind ByLevel.stopLoss

def targetHeld (b : Book) (positionId : ℤ) : Option ℚ :=
  (levelsHeld b positionId).bind ByLevel.takeProfit

/-- The stop-loss held is the position's. -/
theorem stopHeld_of {b : Book} {x : ℤ} {p : Position} (hp : b.positions.get? x = some p) :
    stopHeld b x = p.levels.stopLoss := by
  simp [stopHeld, levelsHeld, hp]

/-- So is the take-profit. -/
theorem targetHeld_of {b : Book} {x : ℤ} {p : Position} (hp : b.positions.get? x = some p) :
    targetHeld b x = p.levels.takeProfit := by
  simp [targetHeld, levelsHeld, hp]

/-- The conclusion of the step lemma: the invariant, and the message's effect on the levels. -/
structure Takes {x orderId : ℤ} (start : Book) (p : Position)
    (earlier : List (Arrival x orderId p.symbolId)) (a : Arrival x orderId p.symbolId)
    (b b' : Book) : Prop where
  arrived : Arrived start p (earlier ++ [a]) b'
  stop : stopHeld b' x =
    if setsStop (x ∈ start.closedInReconciliation) (earlier.map Arrival.message) a.message then
      some a.message.stopLoss
    else stopHeld b x
  target : targetHeld b' x =
    if setsTarget (x ∈ start.closedInReconciliation) (earlier.map Arrival.message) a.message then
      a.message.takeProfit
    else targetHeld b x

variable {x orderId : ℤ} {start : Book} {p : Position}
  {earlier : List (Arrival x orderId p.symbolId)} {b : Book}

/-- One message more has arrived. -/
theorem Arrived.grow (h : Arrived start p earlier b) {b' : Book} {a : Arrival x orderId p.symbolId}
    {key : SeenKey} {q : Position} (hkey : a.operation.key? = some key)
    (hshut : b'.closedInReconciliation = b.closedInReconciliation)
    (hseen : b'.seen = b.seen ∨ b'.seen = insert key b.seen)
    (hq : b'.positions.get? x = some q)
    (hfollows : Follows (x ∈ start.closedInReconciliation) p orderId
      ((earlier ++ [a]).map Arrival.message) q) : Arrived start p (earlier ++ [a]) b' where
  shut := hshut.trans h.shut
  seen key' hkey' := by
    have hor : holdsKey b key' ∨ key' = key := by
      rcases hseen with hseen | hseen
      · exact .inl (by simpa only [holdsKey, hseen] using hkey')
      · exact holdsKey_insert hseen hkey'
    rw [List.map_append, List.mem_append]
    rcases hor with hold | rfl
    · exact (h.seen key' hold).imp_right .inl
    · exact .inr (.inr (by simp [hkey]))
  held := ⟨q, hq, hfollows⟩

/-- A message the book does not show the position. -/
theorem Arrived.takes_ignored (h : Arrived start p earlier b) {a : Arrival x orderId p.symbolId}
    {b' : Book} {key : SeenKey} (hkey : a.operation.key? = some key)
    (hshut : b'.closedInReconciliation = b.closedInReconciliation)
    (hseen : b'.seen = b.seen ∨ b'.seen = insert key b.seen) (hpositions : b'.positions = b.positions)
    (hstop : setsStop (x ∈ start.closedInReconciliation) (earlier.map Arrival.message) a.message =
      false)
    (hstate : decide (x ∈ start.closedInReconciliation) = true ∨ a.message.isState = false) :
    Takes start p earlier a b b' := by
  obtain ⟨q, hq, hfollows⟩ := h.held
  have hmove : movesStop (x ∈ start.closedInReconciliation) (earlier.map Arrival.message) a.message =
      false := by
    unfold setsStop at hstop
    cases hkind : a.message.isState with
    | true => simp [movesStop, hkind]
    | false => simpa [hkind] using hstop
  have htarget : setsTarget (x ∈ start.closedInReconciliation) (earlier.map Arrival.message)
      a.message = false := by
    unfold setsTarget
    rcases hstate with hshut | hkind
    · simp [hshut]
    · simp [hkind]
  have hlevels : levelsHeld b' x = levelsHeld b x := by rw [levelsHeld, hpositions]; rfl
  refine ⟨h.grow hkey hshut hseen (hpositions ▸ hq) ?_, ?_, ?_⟩
  · rw [List.map_append]
    exact hfollows.ignores hstate hmove
  · rw [hstop, if_neg (by simp), stopHeld, hlevels]
    rfl
  · rw [htarget, if_neg (by simp), targetHeld, hlevels]
    rfl

/-- A new state of the protective order is taken unless the position is shut. -/
theorem Arrived.takes_state (h : Arrived start p earlier b) {env : Env} {ops : Operations}
    {event : ProtoOAExecutionEvent} {m : LevelMessage}
    (hstates : States x orderId p.symbolId (.apply env ops event) m)
    (hfresh : ∀ key, Operation.key? (.apply env ops event) = some key → holdsKey b key = false)
    (hlater : p.trailedMs < m.ts) :
    Takes start p earlier ⟨.apply env ops event, m, hstates⟩ b (apply env ops b event).1 := by
  have hstates' := hstates
  cases hstates with
  | @state _ _ _ order ts precision stop target horder hposition htype hid hkind hts hprecision
      hlevels =>
    have hx : order.positionId = x := by rw [ProtoOAOrder.positionId, hposition]; rfl
    have hkey : Operation.key? (.apply env ops event) = some (keyOf event order) := by
      simp [Operation.key?, horder]
    -- of a position closed in reconciliation no event is applied
    by_cases hshut : x ∈ start.closedInReconciliation
    · have hnothing : apply env ops b event = (b, .ok []) := by
        unfold apply
        rw [horder]
        simp only [hx, h.shut, if_pos hshut]
      rw [hnothing]
      exact h.takes_ignored hkey rfl (.inl rfl) rfl (by simp [setsStop, isState, hshut])
        (.inl (by simp [hshut]))
    · have hnotFill : isFill event.executionType = false := by
        rcases hkind with hkind | hkind <;> rw [hkind] <;> rfl
      have hhandles : Handles b event order := by
        refine ⟨horder, by rwa [hx, h.shut], ?_⟩
        unfold repeated
        rw [hfresh _ hkey, hnotFill]
        rfl
      obtain ⟨q, hq, hfollows⟩ := h.held
      rw [decide_eq_false hshut] at hfollows
      have hstate : statesLevels event order q := by
        simp only [statesLevels, hid, hfollows.current, hnotFill, hfollows.protectiveOrderId]
        rcases hkind with hkind | hkind <;> simp [hkind]
      obtain ⟨q', records, hok, hq', hsame⟩ :=
        handle_states hposition hq htype hstate hprecision hlevels
      obtain ⟨hpositions, hseen, hclosed⟩ := apply_told hhandles hok
      obtain ⟨hfollows', hstop, htarget⟩ := hfollows.setProtective stop target hid hts hlater
      have hget : (apply env ops b event).1.positions.get? x = some q' := hpositions ▸ hq'
      refine ⟨h.grow hkey hclosed (.inr hseen) hget ?_, ?_, ?_⟩
      · rw [List.map_append, decide_eq_false hshut]
        exact hfollows'.congr hsame
      · rw [stopHeld_of hget, stopHeld_of hq, hsame.levels, hstop, decide_eq_false hshut]
        rfl
      · rw [targetHeld_of hget, hsame.levels, htarget, decide_eq_false hshut]
        rfl

/-- A trailing move is taken unless a newer state has been. -/
theorem Arrived.takes_move (h : Arrived start p earlier b) {env : Env}
    {event : ProtoOATrailingSLChangedEvent} {m : LevelMessage}
    (hstates : States x orderId p.symbolId (.trailingStopMoved env event) m)
    (hfresh : ∀ key, Operation.key? (.trailingStopMoved env event) = some key →
      holdsKey b key = false)
    (hlater : p.protectiveMs < m.ts) :
    Takes start p earlier ⟨.trailingStopMoved env event, m, hstates⟩ b
      (trailingStopMoved env b event).1 := by
  have hstates' := hstates
  cases hstates with
  | @move _ _ precision stop hposition hid hprecision hprice =>
    obtain ⟨q, hq, hfollows⟩ := h.held
    have hkey := hfresh _ rfl
    replace hlater : p.protectiveMs < event.utcLastUpdateTimestamp := hlater
    have hcounts := hfollows.movesStop_iff stop hlater
    have hsets : ∀ shut, setsStop shut (earlier.map Arrival.message)
        (.move event.utcLastUpdateTimestamp stop) =
        movesStop shut (earlier.map Arrival.message) (.move event.utcLastUpdateTimestamp stop) :=
      fun _ => rfl
    unfold trailingStopMoved
    dsimp only
    rw [hposition, hq]
    dsimp only
    rw [hfollows.symbolId, hprecision]
    dsimp only
    rw [hkey, if_neg (by simp), if_neg (by rw [hid, hfollows.protectiveOrderId]; simp)]
    split
    case isTrue hstale =>
      -- a newer protective state has come
      refine h.takes_ignored rfl rfl (.inr rfl) rfl ?_ (.inr rfl)
      rw [hsets]
      exact Bool.eq_false_iff.mpr fun hmoves => hcounts.mp hmoves hstale
    case isFalse hnew =>
      have hmoves := hcounts.mpr hnew
      rw [hprice]
      dsimp only
      have hsame : SameLevels (trail stop event.utcLastUpdateTimestamp q)
          (if q.ours then levelChanges q.levels false event.utcLastUpdateTimestamp
              (trail stop event.utcLastUpdateTimestamp q)
            else ForeignLegs.levelChanges env.heldClosed q.levels event.utcLastUpdateTimestamp
              (trail stop event.utcLastUpdateTimestamp q)).1 := by
        split
        · exact .of_outline (outline_levelChanges ..)
        · exact .of_outline (outline_foreignChanges ..)
      refine ⟨h.grow rfl rfl (.inr rfl) (Dict.get?_set_self ..) ?_, ?_, ?_⟩
      · rw [List.map_append]
        exact (hfollows.trail hmoves).congr hsame
      · rw [stopHeld_of (Dict.get?_set_self ..), hsame.levels, hsets, if_pos hmoves]
        rfl
      · rw [targetHeld_of (Dict.get?_set_self ..), targetHeld_of hq, hsame.levels]
        exact (if_neg (by simp [setsTarget, isState])).symm

/-! ## A run of messages -/

/-- One further message, whichever it is. -/
theorem Arrived.takes (h : Arrived start p earlier b) (a : Arrival x orderId p.symbolId)
    (hfresh : ∀ key, a.operation.key? = some key → holdsKey b key = false)
    (hlaterState : p.protectiveMs < a.message.ts) (hlaterMove : p.trailedMs < a.message.ts) :
    Takes start p earlier a b (perform b a.operation).1 := by
  obtain ⟨operation, m, hstates⟩ := a
  have hstates' := hstates
  cases hstates' with
  | state => exact h.takes_state hstates hfresh hlaterMove
  | move => exact h.takes_move hstates hfresh hlaterState

/-- What a run of further messages leaves: the levels of the last messages that count. -/
theorem levelsHeld_arrived {b : Book} (hb : Reachable b) (hp : b.positions.get? x = some p)
    (hid : p.protectiveOrderId = some orderId) {arrivals : List (Arrival x orderId p.symbolId)}
    (hfurther : Further b p arrivals) :
    let shut : Bool := x ∈ b.closedInReconciliation
    levelsHeld (arrived b arrivals) x =
      some ⟨lastStop shut p.levels (arrivals.map Arrival.message),
        lastTarget shut p.levels (arrivals.map Arrival.message)⟩ := by
  intro shut
  have hstart : Arrived b p ([] : List (Arrival x orderId p.symbolId)) b :=
    ⟨rfl, fun _ h => .inl h, p, hp, .nil (hb.allSound x p hp).1.current hid⟩
  have hstep : ∀ (earlier : List (Arrival x orderId p.symbolId)) a b', earlier ++ [a] <+: arrivals →
      Arrived b p earlier b' → Takes b p earlier a b' (perform b' a.operation).1 := by
    intro earlier a b' hinit hearlier
    have ha : a ∈ arrivals := hinit.subset (by simp)
    refine hearlier.takes a (fun key hkey => ?_) (hfurther.laterState a ha) (hfurther.laterMove a ha)
    have hnodup := hfurther.distinct.sublist (hinit.map fun a => a.operation.key?).sublist
    rw [List.map_append, List.nodup_append] at hnodup
    by_contra hheld
    rcases hearlier.seen key (by simpa using hheld) with hold | hold
    · rw [hfurther.fresh a ha key hkey] at hold
      cases hold
    · exact hnodup.2.2 _ hold _ (by simp [hkey]) rfl
  have hafter : arrived b arrivals = (machine.comap Arrival.operation).after b arrivals :=
    (machine.after_comap Arrival.operation b arrivals).symm
  have hstop := value_after (m := machine.comap Arrival.operation) (stopHeld · x)
    (fun earlier a => setsStop shut (earlier.map Arrival.message) a.message)
    (fun a => some a.message.stopLoss)
    (fun earlier a b' hinit h => ⟨(hstep earlier a b' hinit h).arrived,
      (hstep earlier a b' hinit h).stop⟩) hstart
  have htarget := value_after (m := machine.comap Arrival.operation) (targetHeld · x)
    (fun earlier a => setsTarget shut (earlier.map Arrival.message) a.message)
    (fun a => a.message.takeProfit)
    (fun earlier a b' hinit h => ⟨(hstep earlier a b' hinit h).arrived,
      (hstep earlier a b' hinit h).target⟩) hstart
  obtain ⟨⟨-, -, q, hq, -⟩, hstop⟩ := hstop
  rw [hafter, levelsHeld, hq, Option.map_some]
  rw [stopHeld_of hq, stopHeld_of hp] at hstop
  rw [targetHeld_of hq, targetHeld_of hp] at htarget
  have hread : q.levels = ⟨q.levels.stopLoss, q.levels.takeProfit⟩ := rfl
  rw [hread, hstop, htarget.2, lastStop, lastTarget, ← kept_map_nil, ← kept_map_nil,
    lastRead_map, lastRead_map]
  rfl

/-- After further messages of its protective order, in whatever order they come, a position holds the
levels of the newest of them just if the last messages that count state these. -/
theorem newest_levels_iff {b : Book} (hb : Reachable b) {x : ℤ} {p : Position}
    (hp : b.positions.get? x = some p) {orderId : ℤ} (hid : p.protectiveOrderId = some orderId)
    (arrivals : List (Arrival x orderId p.symbolId)) (hfurther : Further b p arrivals) :
    levelsHeld (arrived b arrivals) x =
        some (newestLevels p.levels (arrivals.map Arrival.message)) ↔
      Settled (x ∈ b.closedInReconciliation) p.levels (arrivals.map Arrival.message) := by
  rw [levelsHeld_arrived hb hp hid hfurther, Option.some.injEq]
  constructor
  · exact fun h => ⟨congrArg ByLevel.stopLoss h, congrArg ByLevel.takeProfit h⟩
  · rintro ⟨hstop, htarget⟩
    rw [hstop, htarget]

/-- Messages that come in the order of their broker times leave the levels of the newest of them. -/
theorem newest_levels_in_order {b : Book} (hb : Reachable b) {x : ℤ} {p : Position}
    (hp : b.positions.get? x = some p) {orderId : ℤ} (hid : p.protectiveOrderId = some orderId)
    (hshut : x ∉ b.closedInReconciliation) {arrivals : List (Arrival x orderId p.symbolId)}
    (hfurther : Further b p arrivals)
    (hsorted : (arrivals.map Arrival.message).Pairwise fun m m' => m.ts < m'.ts) :
    levelsHeld (arrived b arrivals) x =
      some (newestLevels p.levels (arrivals.map Arrival.message)) := by
  have hsettled := settled_of_sorted p.levels hsorted
  have hheld := levelsHeld_arrived hb hp hid hfurther
  dsimp only at hheld
  rw [decide_eq_false hshut, hsettled.stopLoss, hsettled.takeProfit] at hheld
  exact hheld

end VenueBook

namespace Sample

open VenueBook

/-- The trader's position with both levels, as the book holds it. -/
def held : Position := (foreignOpen.positions.get? 10).get (by decide +kernel)

/-- The levels of the protective order are the stop-loss it states. -/
theorem levelsOf_protective (ts : ℤ) {stop : ℚ} (h : priceOf (.finite stop) 2 = .ok stop) :
    levelsOf (protective ts (some (.finite stop)) none) 2 = .ok ⟨some stop, none⟩ := by
  simp only [protective, levelsOf, levelsAt, priceOf?, h, Except.map]

/-- A new state of the protective order at `ts`. -/
def restated (ts : ℤ) (stop : ℚ) (h : priceOf (.finite stop) 2 = .ok stop) :
    Arrival 10 2 held.symbolId where
  operation := .apply env {} (protectiveEvent .orderReplaced ts (some (.finite stop)) none)
  message := .state ts stop none
  states := .state rfl rfl rfl rfl (.inr rfl) rfl rfl (levelsOf_protective ts h)

/-- A trailing move of its stop-loss at `ts`. -/
def trailed (ts : ℤ) (stop : ℚ) (h : priceOf (.finite stop) 2 = .ok stop) :
    Arrival 10 2 held.symbolId where
  operation := .trailingStopMoved env ⟨10, 2, .finite stop, ts⟩
  message := .move ts stop
  states := .move rfl rfl (show env.pricePrecision held.symbolId = some 2 by decide +kernel) h

def laterState : Arrival 10 2 held.symbolId := restated 400 95 (by decide +kernel)

def earlierState : Arrival 10 2 held.symbolId := restated 300 91 (by decide +kernel)

def earlierMove : Arrival 10 2 held.symbolId := trailed 350 92 (by decide +kernel)

end Sample

namespace VenueBook

/-- A move older than the state before it does not count. -/
theorem newest_levels_after_stale_move :
    levelsHeld (arrived Sample.foreignOpen [Sample.laterState, Sample.earlierMove]) 10 =
      some (newestLevels Sample.held.levels
        ([Sample.laterState, Sample.earlierMove].map Arrival.message)) :=
  (newest_levels_iff ((Reachable.new).after _)
    (show Sample.foreignOpen.positions.get? 10 = some Sample.held by decide +kernel)
    (by decide +kernel) [Sample.laterState, Sample.earlierMove]
    ⟨by decide +kernel, by decide +kernel, by decide +kernel, by decide +kernel⟩).mpr
    ⟨by decide +kernel, by decide +kernel⟩

/-- Of two states of the protective order, the older one applied last sets the levels back. -/
theorem older_state_sets_back : ¬ ∀ b, Reachable b → ∀ (x : ℤ) (p : Position),
    b.positions.get? x = some p → p.isOpen → x ∉ b.closedInReconciliation →
    ∀ orderId, p.protectiveOrderId = some orderId →
    ∀ arrivals : List (Arrival x orderId p.symbolId), Further b p arrivals →
    (arrivals.map fun a => a.message.ts).Nodup →
    levelsHeld (arrived b arrivals) x =
      some (newestLevels p.levels (arrivals.map Arrival.message)) := by
  intro h
  have hlevels := h Sample.foreignOpen ((Reachable.new).after _) 10 Sample.held (by decide +kernel)
    (by decide +kernel) (by decide +kernel) 2 (by decide +kernel)
    [Sample.laterState, Sample.earlierState]
    ⟨by decide +kernel, by decide +kernel, by decide +kernel, by decide +kernel⟩ (by decide +kernel)
  exact absurd hlevels (by decide +kernel)

end VenueBook

end NautilusCtrader
