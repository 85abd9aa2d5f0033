import NautilusCtrader.VenueBook.OpeningAttempts

/-!
# A second attempt without a position

An order without a position gets a new one for each event, so a second attempt learns and takes all
again. Only the book remembers the first: an order marked as reported, and a deal that is taken once, so
that the second finds the position it opened without its volume.
-/

namespace NautilusCtrader

open Common OrderRecord

namespace VenueBook

variable {env : Env} {ops : Operations} {event : ProtoOAExecutionEvent} {order : ProtoOAOrder}
  {precision : ℕ} {f g : Focus} {failure : Failure}

/-! ## An opening order without a position -/

/-- The focus with its position filled to a volume. -/
def filledTo (volume : ℕ) (f : Focus) : Focus :=
  { f with position := { f.position with volume, isOpen := true } }

/-- An order learnt only from reports is told whatever its position. -/
theorem externalEvent_filledTo {volume : ℕ} {reduceOnly : Bool} (g : Focus) :
    externalEvent env event order precision reduceOnly (filledTo volume g) =
      ⟨filledTo volume (externalEvent env event order precision reduceOnly g).focus,
        (externalEvent env event order precision reduceOnly g).records⟩ := by
  obtain ⟨b, p, stored⟩ := g
  have hreport (fills : List Fill) (k : Focus) :
      reportExternal order precision reduceOnly fills (filledTo volume k) =
        ⟨filledTo volume (reportExternal order precision reduceOnly fills k).focus,
          (reportExternal order precision reduceOnly fills k).records⟩ := by
    unfold reportExternal
    dsimp only
    split <;> rfl
  unfold externalEvent filledTo
  dsimp only
  generalize keepOpenOrder event order (order.orderId ∈ b.reported) b = kept
  obtain ⟨c, taken⟩ := kept
  dsimp only
  split
  · split
    · rfl
    · exact hreport [] ⟨c, p, stored⟩
  · split
    · split
      · rfl
      · rename_i fill _
        split
        · rfl
        · exact hreport [fill] ⟨c, p, stored⟩
    · split
      · rfl
      · split
        · split
          · rfl
          · split
            · rfl
            · rfl
        · split
          · rfl
          · rfl

/-- A position without a protective order or levels: its entry's fill neither opens nor moves legs. -/
structure Unprotected (p : Position) : Prop where
  protectiveOrderId : p.protectiveOrderId = none
  levels : p.levels = {}
  foreignLegs : p.foreignLegs = Dict.empty

/-- The records of a fill on an unprotected position do not depend on its volume. -/
theorem openingRecords_filledTo {volume : ℕ} {learnt : Bool} (hbare : Unprotected g.position)
    (hfill : isFill event.executionType = true) :
    openingRecords env event order precision learnt (filledTo volume g) =
      ⟨filledTo volume (openingRecords env event order precision learnt g).focus,
        (openingRecords env event order precision learnt g).records⟩ := by
  have haccepted : event.executionType ≠ .orderAccepted := by
    intro h
    rw [h] at hfill
    cases hfill
  have hown : ((filledTo volume g).position.ours &&
      (filledTo volume g).position.entryOrderId = some order.orderId) =
        (g.position.ours && g.position.entryOrderId = some order.orderId) := rfl
  unfold openingRecords
  rw [hown]
  split
  · obtain ⟨b, p, stored⟩ := g
    have hnone : p.protectiveOrderId = none := hbare.protectiveOrderId
    unfold entryEvent filledTo
    dsimp only
    rw [if_neg haccepted, if_neg haccepted, if_pos hfill, if_pos hfill]
    cases fillOf event.deal precision env.moneyDigits with
    | error reason => rfl
    | ok fill =>
      unfold entryFilled followProtection awaitLevels waits
      dsimp only [Focus.tell]
      rw [hnone]
      simp only [Option.isSome_none, Bool.false_eq_true, if_false]
      split <;> rfl
  · have hposition := externalEvent_position env event order precision false g
    have hlevels : g.position.levels.isEmpty = true := by
      rw [hbare.levels]
      rfl
    unfold openedExternal
    rw [externalEvent_filledTo]
    unfold Handled.andThen
    cases (externalEvent env event order precision false g).records with
    | error reason => rfl
    | ok told =>
      dsimp only
      generalize (externalEvent env event order precision false g).focus = k at hposition
      obtain ⟨c, p, stored⟩ := k
      dsimp only at hposition
      subst hposition
      unfold filledTo
      dsimp only
      rw [hlevels, Bool.not_true, Bool.and_false]
      rfl

/-- Whether an order's state is known only from a deal the book has not taken: it is taken once. -/
def takesDeal (event : ProtoOAExecutionEvent) (b : Book) : Bool :=
  event.position?.isNone && isFill event.executionType &&
    event.deal?.any fun deal => deal.dealId ∉ b.syncedDeals

/-- A second take takes the state again, but not the volume of a deal taken once. -/
theorem sync_unkept (hclosing : order.closingOrder = false) {b' : Book}
    (hdeals : b'.syncedDeals = (sync event order f).book.syncedDeals) :
    (takesDeal event f.book = false →
      sync event order { f with book := b' } = { sync event order f with book := b' }) ∧
    (takesDeal event f.book = true →
      sync event order { f with book := b' } = { f with book := b' } ∧
        ∃ volume, sync event order f =
          filledTo volume { f with book := (sync event order f).book }) := by
  obtain ⟨b, p, stored⟩ := f
  unfold takesDeal
  unfold sync at hdeals ⊢
  cases hstate : event.position? with
  | some state => exact ⟨fun _ => rfl, fun h => by cases h⟩
  | none =>
    rw [hstate] at hdeals
    dsimp only at hdeals ⊢
    cases hdeal : event.deal? with
    | none =>
      refine ⟨fun _ => rfl, fun h => ?_⟩
      simp at h
    | some deal =>
      rw [hdeal] at hdeals
      dsimp only at hdeals ⊢
      by_cases hskip : (!isFill event.executionType || decide (deal.dealId ∈ b.syncedDeals)) = true
      · rw [if_pos hskip] at hdeals ⊢
        rw [hdeals, if_pos hskip]
        refine ⟨fun _ => rfl, fun h => ?_⟩
        simp only [Option.isNone_none, Bool.true_and, Option.any_some, Bool.and_eq_true,
          decide_eq_true_eq] at h
        simp [h.1, h.2] at hskip
      · rw [if_neg hskip] at hdeals ⊢
        have hin : deal.dealId ∈ b'.syncedDeals := hdeals ▸ Finset.mem_insert_self ..
        rw [decide_eq_true hin, Bool.or_true, if_pos rfl]
        refine ⟨fun h => ?_, fun _ => ⟨rfl, p.volume + deal.filledVolume, ?_⟩⟩
        · simp only [Bool.or_eq_true, Bool.not_eq_true', decide_eq_true_eq, not_or,
            Bool.not_eq_false] at hskip
          simp [hskip.1, hskip.2] at h
        · unfold syncDeal
          rw [hclosing]
          rfl

/-- The entry an opening order's event teaches the position of `f`. -/
def learntEntry (event : ProtoOAExecutionEvent) (order : ProtoOAOrder) (f : Focus) : Position :=
  (learn order (takesEntry event order f.position) (order.orderId ∈ f.book.endedEntries)
    f.position).1

/-- An opening learns the entry, takes the event's state over and stamps the fill. -/
theorem openedFocus_eq : openedFocus event order f =
    { sync event order { f with position := learntEntry event order f } with
      position := stampFill event order (learntEntry event order f).isOpen
        (sync event order { f with position := learntEntry event order f }).position } := rfl

/-- On a position the book does not hold, the second attempt opens again what the first did, but for
the volume of a deal that is taken once. -/
theorem openedFocus_unkept (hclosing : order.closingOrder = false) {b' : Book}
    (hdeals : b'.syncedDeals = (openedFocus event order f).book.syncedDeals)
    (hended : b'.endedEntries = f.book.endedEntries) :
    (takesDeal event f.book = false → openedFocus event order { f with book := b' } =
      { openedFocus event order f with book := b' }) ∧
    (takesDeal event f.book = true →
      openedFocus event order { f with book := b' } =
        { f with
          book := b'
          position := stampFill event order (learntEntry event order f).isOpen
            (learntEntry event order f) } ∧
      ∃ volume, openedFocus event order f = filledTo volume
        { openedFocus event order { f with book := b' } with
          book := (openedFocus event order f).book }) := by
  have hlearnt : learntEntry event order { f with book := b' } = learntEntry event order f := by
    unfold learntEntry
    dsimp only
    rw [hended]
  obtain ⟨hkept, htaken⟩ := sync_unkept
    (f := { f with position := learntEntry event order f }) hclosing hdeals
  constructor
  · intro htakes
    rw [openedFocus_eq, hlearnt, hkept htakes]
    rfl
  · intro htakes
    obtain ⟨hagain, volume, hvolume⟩ := htaken htakes
    have hfirst : openedFocus event order { f with book := b' } =
        { f with
          book := b'
          position := stampFill event order (learntEntry event order f).isOpen
            (learntEntry event order f) } := by
      rw [openedFocus_eq, hlearnt, hagain]
    refine ⟨hfirst, volume, ?_⟩
    rw [hfirst, openedFocus_eq, hvolume]
    unfold stampFill filledTo
    dsimp only
    split <;> rfl

/-- Of a position that is closed, the notices of a second opening are those of the first. -/
theorem openedNotices_unkept (hclosed : f.position.isOpen = false) {b' : Book}
    (hended : b'.endedEntries = f.book.endedEntries) :
    openedNotices event order { f with book := b' } = openedNotices event order f := by
  have hnone : tellsReduction event order f.position = false := by
    unfold tellsReduction
    rw [hclosed, Bool.and_false, Bool.false_and]
  unfold openedNotices endedNotice
  dsimp only
  rw [hended, hnone]
  rfl

/-- A fill on an unprotected position leaves its legs and opens no foreign one. -/
theorem openingRecords_legs {learnt : Bool} (hbare : Unprotected g.position)
    (hfill : isFill event.executionType = true) :
    (openingRecords env event order precision learnt g).focus.position.legs = g.position.legs ∧
      (openingRecords env event order precision learnt g).focus.position.foreignLegs =
        Dict.empty := by
  have haccepted : event.executionType ≠ .orderAccepted := by
    intro h
    rw [h] at hfill
    cases hfill
  unfold openingRecords
  split
  · unfold entryEvent
    dsimp only
    rw [if_neg haccepted, if_pos hfill]
    cases fillOf event.deal precision env.moneyDigits with
    | error reason => exact ⟨rfl, hbare.foreignLegs⟩
    | ok fill =>
      unfold entryFilled followProtection awaitLevels
      dsimp only [Focus.tell]
      rw [hbare.protectiveOrderId]
      simp only [Option.isSome_none, Bool.false_eq_true, if_false]
      split <;> exact ⟨rfl, hbare.foreignLegs⟩
  · have hposition := externalEvent_position env event order precision false g
    have hlevels : g.position.levels.isEmpty = true := by
      rw [hbare.levels]
      rfl
    unfold openedExternal Handled.andThen
    split
    · exact ⟨congrArg Position.legs hposition, by rw [← hbare.foreignLegs, ← hposition]; rfl⟩
    · dsimp only [Focus.tell]
      rw [hposition, hlevels, Bool.not_true, Bool.and_false, if_neg Bool.false_ne_true]
      exact ⟨rfl, hbare.foreignLegs⟩

/-- Of an open position, only a stop out's activity follows the opening. -/
theorem openedTail_open (hopen : g.position.isOpen = true) :
    openedTail event order g = g.tell (stopOutActivity event order g.position) := by
  have hstays : endIfClosed event (isFill event.executionType && hasLegs g.position) g = g.tell [] := by
    unfold endIfClosed
    rw [hopen, Bool.not_true, Bool.and_false]
    rfl
  unfold openedTail
  show Handled.mk (endIfClosed event (isFill event.executionType && hasLegs g.position) g).focus
    ((endIfClosed event (isFill event.executionType && hasLegs g.position) g).records.map
      (stopOutActivity event order g.position ++ ·)) = _
  rw [hstays]
  show Handled.mk g (.ok (stopOutActivity event order g.position ++ [])) = _
  rw [List.append_nil]
  rfl

/-- Whether some leg of a position lives. -/
def livesLeg (p : Position) : Bool := p.legs.values.any Leg.alive

/-- A leg lives when that of either level does. -/
theorem livesLeg_eq (p : Position) :
    livesLeg p = (p.legs.stopLoss.any Leg.alive || p.legs.takeProfit.any Leg.alive) := by
  unfold livesLeg ByLevel.values ByLevel.items
  cases hstop : p.legs.stopLoss <;> cases htarget : p.legs.takeProfit <;>
    simp [Level.all, ByLevel.get?, hstop, htarget]

/-- A position without a live leg has none to cancel. -/
theorem cancelLegs_nil {ts : ℤ} {p : Position} :
    (cancelLegs ts p).2 = [] ↔ livesLeg p = false := by
  let cancelled (p : Position) (level : Level) (leg : Leg) : Leg × List Record :=
    if leg.alive then ({ leg with alive := false }, [legEvent .canceled p level leg ts])
    else (leg, [])
  have hstep (q : Position) (level : Level) :
      (legStep (cancelled p) q level).2 = [] ↔ (q.legs.get? level).any Leg.alive = false := by
    unfold legStep
    cases q.legs.get? level with
    | none => exact iff_of_true rfl rfl
    | some leg =>
      show (cancelled p level leg).2 = [] ↔ leg.alive = false
      unfold cancelled
      by_cases halive : leg.alive = true
      · rw [if_pos halive, halive]
        exact iff_of_false (List.cons_ne_nil _ _) (ne_of_beq_false rfl)
      · rw [if_neg halive]
        exact iff_of_true rfl (by simpa using halive)
  have hother : (legStep (cancelled p) p .stopLoss).1.legs.get? .takeProfit =
      p.legs.get? .takeProfit := by
    rw [legs_legStep]
    rfl
  show _ ++ (legStep (cancelled p) (legStep (cancelled p) p .stopLoss).1 .takeProfit).2 = [] ↔ _
  rw [List.append_eq_nil_iff, hstep, hother, livesLeg_eq, Bool.or_eq_false_iff]
  exact and_congr_left fun _ => hstep p .stopLoss

/-- What is left of a position without foreign legs once it is found not open: its live legs. -/
theorem openedTail_closed (hfill : isFill event.executionType = true)
    (hclosed : g.position.isOpen = false) (hforeign : g.position.foreignLegs = Dict.empty) :
    ∃ ends, (openedTail event order g).records =
        .ok (stopOutActivity event order g.position ++ ends) ∧
      (openedTail event order g).focus.book = g.book ∧
      (openedTail event order g).focus.stored = g.stored ∧
      (ends = [] ↔ livesLeg g.position = false) := by
  have hend : ∃ ends, (endIfClosed event (isFill event.executionType && hasLegs g.position) g).records =
        .ok ends ∧
      (endIfClosed event (isFill event.executionType && hasLegs g.position) g).focus.book = g.book ∧
      (endIfClosed event (isFill event.executionType && hasLegs g.position) g).focus.stored =
        g.stored ∧
      (ends = [] ↔ livesLeg g.position = false) := by
    unfold endIfClosed
    rw [hfill, hclosed, Bool.true_and, Bool.not_false, Bool.and_true]
    by_cases hlegs : hasLegs g.position = true
    · rw [if_pos hlegs]
      refine ⟨_, rfl, rfl, rfl, ?_⟩
      let cleared : Position := { g.position with protectiveOrderId := none, levels := {} }
      have hnode : (cancelLegs event.deal.executionTimestamp cleared).2 = [] ↔
          livesLeg g.position = false := cancelLegs_nil
      have hnoforeign (q : Position) (hq : q.foreignLegs = Dict.empty) :
          (ForeignLegs.cancelAll event.deal.executionTimestamp q).2 = [] := by
        show (q.foreignLegs.mapAccum _).2 = []
        rw [hq]
        rfl
      have hkept : (cancelLegs event.deal.executionTimestamp cleared).1.foreignLegs = Dict.empty :=
        (foreignLegs_overLegs _ cleared).trans hforeign
      show (cancelLegs event.deal.executionTimestamp cleared).2 ++
        (ForeignLegs.cancelAll event.deal.executionTimestamp
          (cancelLegs event.deal.executionTimestamp cleared).1).2 = [] ↔ _
      rw [hnoforeign _ hkept, List.append_nil]
      exact hnode
    · rw [if_neg hlegs]
      refine ⟨[], rfl, rfl, rfl, iff_of_true rfl ?_⟩
      simp only [hasLegs, Bool.or_eq_true, Bool.not_eq_true', not_or, Bool.not_eq_false] at hlegs
      have hempty := hlegs.1
      simp only [ByLevel.isEmpty, Bool.and_eq_true, Option.isNone_iff_eq_none] at hempty
      rw [livesLeg_eq, hempty.1, hempty.2]
      rfl
  obtain ⟨ends, hrecords, hbook, hstored, hnil⟩ := hend
  refine ⟨ends, ?_, hbook, hstored, hnil⟩
  show (endIfClosed event (isFill event.executionType && hasLegs g.position) g).records.map
    (stopOutActivity event order g.position ++ ·) = _
  rw [hrecords]
  rfl

/-- Whether an opening order's record names legs that live until their levels come. -/
def namesLegs (event : ProtoOAExecutionEvent) (order : ProtoOAOrder) (b : Book) (p : Position) :
    Bool :=
  order.orderId ∉ b.endedEntries && takesEntry event order p &&
    (parseLabel order.tradeData.label).isSome &&
    (parseComment order.tradeData.comment).any fun ids => ids.stopLoss.isSome || ids.takeProfit.isSome

/-- Without legs before, one lives just when the entry names it. -/
theorem livesLeg_learntEntry (hlegs : f.position.legs = {}) :
    livesLeg (learntEntry event order f) = namesLegs event order f.book f.position := by
  have hnolegs : livesLeg f.position = false := by
    rw [livesLeg_eq, hlegs]
    rfl
  have hadopted : livesLeg (if takesEntry event order f.position then
      adopt f.position order false ∅ else (f.position, [])).1 =
        (takesEntry event order f.position && (parseLabel order.tradeData.label).isSome &&
          (parseComment order.tradeData.comment).any fun ids =>
            ids.stopLoss.isSome || ids.takeProfit.isSome) := by
    cases takesEntry event order f.position with
    | false => exact hnolegs
    | true =>
      unfold adopt
      dsimp only
      cases parseLabel order.tradeData.label with
      | none => exact hnolegs
      | some label =>
        cases parseComment order.tradeData.comment with
        | none => exact hnolegs
        | some ids =>
          obtain ⟨stopLoss, takeProfit⟩ := ids
          rw [livesLeg_eq]
          dsimp only
          rw [hlegs]
          cases stopLoss <;> cases takeProfit <;> rfl
  unfold learntEntry learn namesLegs
  dsimp only
  by_cases hended : order.orderId ∈ f.book.endedEntries
  · rw [if_pos (decide_eq_true hended), livesLeg_eq]
    unfold endLegs
    have hdone (leg : Option Leg) :
        (leg.map fun leg => { leg with alive := false }).any Leg.alive = false := by
      cases leg <;> rfl
    dsimp only
    rw [hdone, hdone]
    simp [hended]
  · rw [if_neg (by simpa using hended), hadopted]
    simp [hended]

/-- Learning its entry leaves a position unprotected. -/
theorem bare_learntEntry (hbare : Unprotected f.position) (wasOpen : Bool) :
    Unprotected (stampFill event order wasOpen (learntEntry event order f)) := by
  obtain ⟨filledMs, hstamp⟩ := stampFill_fields event order wasOpen (learntEntry event order f)
  rw [hstamp]
  have hadopted (p : Position) : Unprotected p → Unprotected (adopt p order false ∅).1 := by
    intro h
    unfold adopt
    dsimp only
    split
    · exact ⟨h.protectiveOrderId, h.levels, h.foreignLegs⟩
    · split <;> exact ⟨h.protectiveOrderId, h.levels, h.foreignLegs⟩
  have hlearnt : Unprotected (learntEntry event order f) := by
    unfold learntEntry learn
    dsimp only
    have hfirst : Unprotected (if takesEntry event order f.position then
        adopt f.position order false ∅ else (f.position, [])).1 := by
      split
      · exact hadopted _ hbare
      · exact hbare
    split
    · exact ⟨hfirst.protectiveOrderId, hfirst.levels, hfirst.foreignLegs⟩
    · exact hfirst
  exact ⟨hlearnt.protectiveOrderId, hlearnt.levels, hlearnt.foreignLegs⟩

/-- `_opening` on a position without levels, and on the same position filled: only what a stop-out and
a position found not open tell is different. -/
theorem openingFrom_filledTo {notices : List Record} {learnt : Bool} {volume : ℕ} {told : List Record}
    (hfill : isFill event.executionType = true) (hbare : Unprotected g.position)
    (hclosed : g.position.isOpen = false)
    (hok : ((((filledTo volume g).tell notices).andThen
      (openingRecords env event order precision learnt)).andThen
        (openedTail event order)).records = .ok told) :
    ∃ first p q ends, told = first ++ stopOutActivity event order p ∧
      (((g.tell notices).andThen (openingRecords env event order precision learnt)).andThen
        (openedTail event order)).records = .ok (first ++ (stopOutActivity event order q ++ ends)) ∧
      p.isOpen = true ∧ q.isOpen = false ∧ (ends = [] ↔ livesLeg g.position = false) ∧
      (((g.tell notices).andThen (openingRecords env event order precision learnt)).andThen
        (openedTail event order)).focus.book =
          ((((filledTo volume g).tell notices).andThen
            (openingRecords env event order precision learnt)).andThen
              (openedTail event order)).focus.book := by
  let own := openingRecords env event order precision learnt g
  have hmade : openingRecords env event order precision learnt (filledTo volume g) =
      ⟨filledTo volume own.focus, own.records⟩ := openingRecords_filledTo hbare hfill
  -- the three parts of `_opening` are compared in turn, the last of them apart from the end it tells
  obtain ⟨start, ending, hstart, hending, rfl⟩ := told_andThen hok
  obtain ⟨said, records, hsaid, hrecords, rfl⟩ := told_andThen hstart
  obtain rfl : notices = said := Except.ok.inj hsaid
  have hown : own.records = .ok records := by
    refine Eq.trans ?_ hrecords
    exact (congrArg Handled.records hmade).symm
  have hfocus : (((filledTo volume g).tell notices).andThen
      (openingRecords env event order precision learnt)).focus = filledTo volume own.focus := by
    rw [(Handled.andThen_of_ok hstart).1]
    exact congrArg Handled.focus hmade
  have hopen : openedTail event order (filledTo volume own.focus) =
      (filledTo volume own.focus).tell
        (stopOutActivity event order (filledTo volume own.focus).position) := openedTail_open rfl
  obtain ⟨hlegs, hforeign⟩ : own.focus.position.legs = g.position.legs ∧
      own.focus.position.foreignLegs = Dict.empty := openingRecords_legs hbare hfill
  have hstays : own.focus.position.isOpen = false :=
    (congrArg HeldState.isOpen (held_openingRecords env event order precision learnt g)).trans hclosed
  obtain ⟨ends, hends, hbook, -, hnil⟩ : ∃ ends, (openedTail event order own.focus).records =
        .ok (stopOutActivity event order own.focus.position ++ ends) ∧
      (openedTail event order own.focus).focus.book = own.focus.book ∧
      (openedTail event order own.focus).focus.stored = own.focus.stored ∧
      (ends = [] ↔ livesLeg own.focus.position = false) := openedTail_closed hfill hstays hforeign
  have hagain : ((g.tell notices).andThen
      (openingRecords env event order precision learnt)).records = .ok (notices ++ records) :=
    Handled.andThen_ok rfl hown
  have hfocus' : ((g.tell notices).andThen
      (openingRecords env event order precision learnt)).focus = own.focus :=
    (Handled.andThen_of_ok hagain).1
  have hall : (((g.tell notices).andThen (openingRecords env event order precision learnt)).andThen
      (openedTail event order)).records =
        .ok (notices ++ records ++ (stopOutActivity event order own.focus.position ++ ends)) := by
    refine Handled.andThen_ok hagain ?_
    rw [hfocus']
    exact hends
  rw [hfocus, hopen] at hending
  refine ⟨notices ++ records, (filledTo volume own.focus).position, own.focus.position, ends, ?_,
    hall, rfl, hstays, ?_, ?_⟩
  · rw [← Except.ok.inj hending]
  · rw [hnil, livesLeg_eq, livesLeg_eq, hlegs]
  · rw [(Handled.andThen_of_ok hall).1, (Handled.andThen_of_ok hok).1, hfocus, hfocus', hbook, hopen]
    rfl

/-- A position the book does not hold: a new one for each event. -/
structure Unheld (p : Position) : Prop extends Unprotected p where
  isOpen : p.isOpen = false
  legs : p.legs = {}

section

variable {env' : Env} {precision' : ℕ} {told : List Record}

/-- The second attempt at an opening order without a position, from the entry it learns again. -/
theorem openingOn_unkept_from (hclosing : order.closingOrder = false)
    (hblank : Unheld f.position) :
    openingOn env' event order precision'
        { f with book := openedBy env event order precision (openedFocus event order f) } =
      (((openedFocus event order
          { f with book := openedBy env event order precision (openedFocus event order f) }).tell
          (openedNotices event order f)).andThen
        (openingRecords env' event order precision' (takesEntry event order f.position))).andThen
        (openedTail event order) := by
  have hended := (openedBy_fields env event order precision (openedFocus event order f)).2.trans
    openedFocus_ended
  rw [openingOn_from hclosing, openedNotices_unkept hblank.isOpen hended]

/-- What both attempts at an order whose deal is taken once tell and leave. -/
theorem openingOn_unkept_taken (hclosing : order.closingOrder = false)
    (hblank : Unheld f.position) (hok : (openingOn env' event order precision' f).records = .ok told)
    (hreported : nodesEntry event order f.position = true ∨
      marksFirst env event order precision (openedFocus event order f).book = false)
    (htaken : takesDeal event f.book = true) :
    ∃ first p q ends, told = first ++ stopOutActivity event order p ∧
      (openingOn env' event order precision' { f with
        book := openedBy env event order precision (openedFocus event order f) }).records =
          .ok (first ++ (stopOutActivity event order q ++ ends)) ∧
      p.isOpen = true ∧ q.isOpen = false ∧
      (ends = [] ↔ namesLegs event order f.book f.position = false) ∧
      (openingOn env' event order precision' { f with
        book := openedBy env event order precision (openedFocus event order f) }).focus.book =
          (openingOn env' event order precision' f).focus.book := by
  have hfill : isFill event.executionType = true := by
    simp only [takesDeal, Bool.and_eq_true] at htaken
    exact htaken.1.2
  obtain ⟨hdeals, hended⟩ := openedBy_fields env event order precision (openedFocus event order f)
  -- the second attempt starts from the position the first one leaves, without its volume
  obtain ⟨hagain, volume, hvolume⟩ := (openedFocus_unkept hclosing hdeals
    (hended.trans openedFocus_ended)).2 htaken
  obtain ⟨g, hfirst, hsecond, hposition⟩ : ∃ g : Focus,
      openedFocus event order f = filledTo volume g ∧
      openedFocus event order { f with
        book := openedBy env event order precision (openedFocus event order f) } =
          { g with book := openedBy env event order precision g } ∧
      g.position = stampFill event order (learntEntry event order f).isOpen
        (learntEntry event order f) := by
    refine ⟨_, hvolume, ?_, by rw [hagain]⟩
    have hbook : openedBy env event order precision
        { openedFocus event order { f with
            book := openedBy env event order precision (openedFocus event order f) } with
          book := (openedFocus event order f).book } =
        openedBy env event order precision (openedFocus event order f) := by
      conv_rhs => rw [hvolume]
      rfl
    rw [hbook, hagain]
  obtain ⟨filledMs, hstamp⟩ := stampFill_fields event order (learntEntry event order f).isOpen
    (learntEntry event order f)
  have hlearnt : (learntEntry event order f).held = f.position.held := held_learn ..
  have hbare : Unprotected g.position := by
    rw [hposition]
    exact bare_learntEntry hblank.toUnprotected _
  have hclosed : g.position.isOpen = false := by
    rw [hposition, hstamp]
    exact (congrArg HeldState.isOpen hlearnt).trans hblank.isOpen
  have hlives : livesLeg g.position = namesLegs event order f.book f.position := by
    rw [hposition, hstamp, ← livesLeg_learntEntry hblank.legs]
    rfl
  have hown : (g.position.ours && g.position.entryOrderId = some order.orderId) = true ∨
      marksFirst env event order precision g.book = false := by
    rw [← openedFocus_own, hfirst] at hreported
    exact hreported
  rw [openingOn_unkept_from hclosing hblank, hsecond]
  rw [openingOn_from hclosing, hfirst] at hok ⊢
  have hsame : (({ g with book := openedBy env event order precision g }.tell
      (openedNotices event order f)).andThen
        (openingRecords env' event order precision' (takesEntry event order f.position))).andThen
          (openedTail event order) =
      ((g.tell (openedNotices event order f)).andThen
        (openingRecords env' event order precision' (takesEntry event order f.position))).andThen
          (openedTail event order) :=
    congrArg (fun h : Handled => h.andThen (openedTail event order))
      (tell_andThen_congr (openingRecords_openedBy _ hown))
  rw [hsame, ← hlives]
  exact openingFrom_filledTo hfill hbare hclosed hok

/-- The second attempt at an opening order without a position leaves and tells what the only one
would. -/
theorem openingOn_unkept_again (hclosing : order.closingOrder = false) (hblank : Unheld f.position)
    (hok : (openingOn env' event order precision' f).records = .ok told)
    (hreported : nodesEntry event order f.position = true ∨
      marksFirst env event order precision (openedFocus event order f).book = false)
    (htaken : takesDeal event f.book = true →
      order.isStopOut = false ∧ namesLegs event order f.book f.position = false) :
    (openingOn env' event order precision' { f with
        book := openedBy env event order precision (openedFocus event order f) }).records =
      .ok told ∧
    (openingOn env' event order precision' { f with
        book := openedBy env event order precision (openedFocus event order f) }).focus.book =
      (openingOn env' event order precision' f).focus.book := by
  cases htakes : takesDeal event f.book with
  | true =>
    obtain ⟨hstopOut, hlegs⟩ := htaken htakes
    obtain ⟨first, p, q, ends, rfl, hrecords, -, -, hends, hbook⟩ :=
      openingOn_unkept_taken hclosing hblank hok hreported htakes
    refine ⟨?_, hbook⟩
    rw [hrecords, hends.mpr hlegs]
    unfold stopOutActivity
    rw [hstopOut, Bool.and_false]
    rfl
  | false =>
    obtain ⟨hdeals, hended⟩ := openedBy_fields env event order precision (openedFocus event order f)
    have hsecond := (openedFocus_unkept hclosing hdeals (hended.trans openedFocus_ended)).1 htakes
    rw [← openedFocus_own] at hreported
    have hsame : openingOn env' event order precision' { f with
        book := openedBy env event order precision (openedFocus event order f) } =
        openingOn env' event order precision' f := by
      rw [openingOn_unkept_from hclosing hblank, hsecond, openingOn_from hclosing]
      exact congrArg (fun h : Handled => h.andThen (openedTail event order))
        (tell_andThen_congr (openingRecords_openedBy _ hreported))
    rw [hsame]
    exact ⟨hok, rfl⟩

/-- An order the first attempt marked as reported, or a position its deal opened, shows in what the
second tells. -/
theorem openingOn_unkept_misses (hclosing : order.closingOrder = false) (hblank : Unheld f.position)
    (hok : (openingOn env' event order precision' f).records = .ok told)
    (hrecords : (openingOn env' event order precision' { f with
        book := openedBy env event order precision (openedFocus event order f) }).records =
      .ok told) :
    (nodesEntry event order f.position = true ∨
      marksFirst env event order precision (openedFocus event order f).book = false) ∧
    (takesDeal event f.book = true →
      order.isStopOut = false ∧ namesLegs event order f.book f.position = false) := by
  have hreported : nodesEntry event order f.position = true ∨
      marksFirst env event order precision (openedFocus event order f).book = false := by
    by_contra hspoiled
    rw [not_or, Bool.not_eq_true, Bool.not_eq_false] at hspoiled
    obtain ⟨hexternal, hmarks⟩ := hspoiled
    obtain ⟨hnew, hkind, hin⟩ := marksFirst_iff hmarks
    -- an order that was announced is another's, on both attempts
    have hunowned (k : Focus) (hk : k.position = f.position) :
        ¬ ((openedFocus event order k).position.ours &&
          (openedFocus event order k).position.entryOrderId = some order.orderId) = true := by
      rw [openedFocus_own, hk, hexternal]
      exact Bool.false_ne_true
    have hbook : openedBy env event order precision (openedFocus event order f) =
        reportedBy env event order precision (openedFocus event order f).book :=
      if_neg (hunowned f rfl)
    have hnolegs (k : Focus) (hk : k.position = f.position) :
        announced (learntLegs env' order (takesEntry event order f.position)
          (openedFocus event order k).position) = 0 := by
      have hlevels : (openedFocus event order k).position.levels = {} := by
        rw [show (openedFocus event order k).position.levels = k.position.levels from
          opened_levels .., hk, hblank.levels]
      unfold learntLegs
      rw [hlevels, show ByLevel.isEmpty ({} : Levels) = true from rfl, Bool.not_true, Bool.and_false]
      rfl
    rw [openingOn_unkept_from hclosing hblank] at hrecords
    rw [openingOn_from hclosing] at hok
    obtain ⟨first, hfirst, htold⟩ := announced_opening hok
    obtain ⟨second, hsecond, htold'⟩ := announced_opening hrecords
    unfold openingRecords at hfirst hsecond
    rw [if_neg (hunowned f rfl)] at hfirst
    rw [if_neg (hunowned { f with
      book := openedBy env event order precision (openedFocus event order f) } rfl)] at hsecond
    obtain ⟨report, hreport, hannounced⟩ := announced_openedExternal hfirst
    obtain ⟨again, hagain, hannounced'⟩ := announced_openedExternal hsecond
    have hheld : order.orderId ∈ (openedFocus event order { f with
        book := openedBy env event order precision (openedFocus event order f) }).book.reported := by
      have hsame := (opened_sameOrders event order (takesEntry event order f.position) { f with
        book := openedBy env event order precision (openedFocus event order f) }).reported
      refine hsame.symm ▸ ?_
      rw [hbook]
      exact hin
    have hone := announced_externalEvent hnew hkind hreport
    have hnone := announced_externalEvent_known hheld hkind hagain
    have hlegs := hnolegs f rfl
    have hlegs' := hnolegs { f with
      book := openedBy env event order precision (openedFocus event order f) } rfl
    omega
  refine ⟨hreported, fun htaken => ?_⟩
  obtain ⟨first, p, q, ends, rfl, hagain, hopen, hclosed, hends, -⟩ :=
    openingOn_unkept_taken hclosing hblank hok hreported htaken
  have hsame : stopOutActivity event order p = stopOutActivity event order q ++ ends := by
    rw [hagain] at hrecords
    exact (List.append_cancel_left (Except.ok.inj hrecords)).symm
  unfold stopOutActivity at hsame
  rw [hopen, hclosed] at hsame
  cases hstopOut : order.isStopOut with
  | true =>
    -- what a stop-out tells depends on whether the position is open, in which the attempts differ
    have hfill : isFill event.executionType = true := by
      simp only [takesDeal, Bool.and_eq_true] at htaken
      exact htaken.1.2
    rw [hstopOut, hfill] at hsame
    simp [activity] at hsame
  | false =>
    rw [hstopOut, Bool.and_false] at hsame
    exact ⟨rfl, hends.mp hsame.symm⟩

end

end VenueBook

end NautilusCtrader
