import NautilusCtrader.VenueBook.Replays

/-!
# What a raising attempt leaves

A handler that raises keeps what it changed before: the state synced, a close matched, an order marked
as reported, a protective order taken. Each route of an event is followed to where it can raise, and a
second attempt is started from there. Two attempts that differ are told apart by what the handlers
announce once, or by the stop-loss they leave.
-/

namespace NautilusCtrader

open Common OrderRecord

namespace VenueBook

variable {env : Env} {ops : Operations} {event : ProtoOAExecutionEvent} {order : ProtoOAOrder}
  {precision : ℕ} {f g : Focus} {failure : Failure}

/-! ## What a raising attempt leaves -/

/-- A fill ends no order. -/
theorem isFill_stands {kind : ProtoOAExecutionType} (h : isFill kind = true) :
    endedEventKind kind = none := by
  cases kind <;> first | rfl | cases h

/-- Whether an event that raises marks an order learnt only from reports first. -/
def marksFirst (env : Env) (event : ProtoOAExecutionEvent) (order : ProtoOAOrder) (precision : ℕ)
    (b : Book) : Bool :=
  order.orderId ∉ b.reported &&
    (event.executionType = .orderAccepted ||
      isFill event.executionType && (fillOf event.deal precision env.moneyDigits).isOk)

/-- What `_external_event` has made of the book when it raises. -/
def reportedBy (env : Env) (event : ProtoOAExecutionEvent) (order : ProtoOAOrder) (precision : ℕ)
    (b : Book) : Book :=
  let kept := (keepOpenOrder event order (order.orderId ∈ b.reported) b).1
  if marksFirst env event order precision b then
    { kept with reported := insert order.orderId kept.reported }
  else kept

/-- A report that raises has marked its order reported. -/
theorem reportExternal_raised {reduceOnly : Bool} {fills : List Fill}
    (h : (reportExternal order precision reduceOnly fills f).records = .error failure) :
    (reportExternal order precision reduceOnly fills f).focus =
      { f with book := { f.book with reported := insert order.orderId f.book.reported } } := by
  unfold reportExternal at h ⊢
  dsimp only at h ⊢
  split
  · rfl
  · rename_i prices hprices
    rw [hprices] at h
    cases h

/-- An external event that raises was no end of its order. -/
theorem externalEvent_raised {reduceOnly : Bool}
    (h : (externalEvent env event order precision reduceOnly f).records = .error failure) :
    endedEventKind event.executionType = none ∧
      (externalEvent env event order precision reduceOnly f).focus =
        { f with book := reportedBy env event order precision f.book } := by
  unfold externalEvent at h ⊢
  dsimp only at h ⊢
  -- only an order that is not known is reported, and only that or a new state can fail to be read
  by_cases haccepted : event.executionType = .orderAccepted
  · rw [if_pos haccepted] at h ⊢
    refine ⟨by rw [haccepted]; rfl, ?_⟩
    -- the fill was read, so the order is marked before its report raises
    by_cases hknown : order.orderId ∈ f.book.reported
    · rw [if_pos (decide_eq_true hknown)] at h
      cases h
    · rw [if_neg (by simpa using hknown)] at h ⊢
      rw [reportExternal_raised h]
      have hmarks : marksFirst env event order precision f.book = true := by
        simp [marksFirst, haccepted, hknown]
      unfold reportedBy
      dsimp only
      rw [if_pos hmarks]
  · rw [if_neg haccepted] at h ⊢
    by_cases hfill : isFill event.executionType = true
    · rw [if_pos hfill] at h ⊢
      refine ⟨isFill_stands hfill, ?_⟩
      cases hread : fillOf event.deal precision env.moneyDigits with
      | error reason =>
        have hmarks : ¬ marksFirst env event order precision f.book = true := by
          simp [marksFirst, haccepted, hread, Except.isOk, Except.toBool]
        unfold reportedBy
        dsimp only
        rw [if_neg hmarks]
        rfl
      | ok fill =>
        rw [hread] at h
        dsimp only at h ⊢
        by_cases hknown : order.orderId ∈ f.book.reported
        · rw [if_pos (decide_eq_true hknown)] at h
          cases h
        · rw [if_neg (by simpa using hknown)] at h ⊢
          rw [reportExternal_raised h]
          have hmarks : marksFirst env event order precision f.book = true := by
            simp [marksFirst, hfill, hread, hknown, Except.isOk, Except.toBool]
          unfold reportedBy
          dsimp only
          rw [if_pos hmarks]
    · rw [if_neg hfill] at h ⊢
      have hmarks : ¬ marksFirst env event order precision f.book = true := by
        simp [marksFirst, haccepted, hfill]
      have hbook : reportedBy env event order precision f.book =
          (keepOpenOrder event order (order.orderId ∈ f.book.reported) f.book).1 := if_neg hmarks
      rw [hbook]
      split at h
      · cases h
      · rename_i hknown
        rw [if_neg hknown]
        split at h
        · rename_i hreplaced
          rw [if_pos hreplaced]
          refine ⟨by rw [hreplaced]; rfl, ?_⟩
          split at h
          · cases h
          · rename_i hpending
            rw [if_neg hpending]
            split at h
            · rfl
            · cases h
        · split at h
          · cases h
          · cases h

/-- Of two handlers the first raised, or the second did. -/
theorem andThen_raised {h : Handled} {next : Focus → Handled}
    (hraised : (h.andThen next).records = .error failure) :
    (h.records = .error failure ∧ (h.andThen next).focus = h.focus) ∨
      (next h.focus).records = .error failure ∧ (h.andThen next).focus = (next h.focus).focus := by
  unfold Handled.andThen at hraised ⊢
  cases hrecords : h.records with
  | error reason =>
    rw [hrecords] at hraised
    exact .inl ⟨hraised, rfl⟩
  | ok told =>
    rw [hrecords] at hraised
    dsimp only at hraised ⊢
    cases hnext : (next h.focus).records with
    | error reason =>
      rw [hnext] at hraised
      cases hraised
      exact .inr ⟨rfl, rfl⟩
    | ok later =>
      rw [hnext] at hraised
      cases hraised

/-- A handler that cannot raise after one that can. -/
theorem andThen_raised_first {h : Handled} {next : Focus → Handled}
    (hnext : ∀ g, ∃ told, (next g).records = .ok told)
    (hraised : (h.andThen next).records = .error failure) :
    h.records = .error failure ∧ (h.andThen next).focus = h.focus := by
  rcases andThen_raised hraised with hfirst | ⟨hlast, -⟩
  · exact hfirst
  · obtain ⟨told, hok⟩ := hnext h.focus
    rw [hok] at hlast
    cases hlast

/-- The focus after the first part of `_opening`. -/
def openedFocus (event : ProtoOAExecutionEvent) (order : ProtoOAOrder) (f : Focus) : Focus :=
  (opened event order (takesEntry event order f.position) f).focus

/-- What `_opening` has made of the book when it raises. -/
def openedBy (env : Env) (event : ProtoOAExecutionEvent) (order : ProtoOAOrder) (precision : ℕ)
    (f : Focus) : Book :=
  if f.position.ours && f.position.entryOrderId = some order.orderId then f.book
  else reportedBy env event order precision f.book

/-- An opening event that raises leaves the position opened. -/
theorem openingOn_raised (h : (openingOn env event order precision f).records = .error failure) :
    endedEventKind event.executionType = none ∧
      (openingOn env event order precision f).focus =
        { openedFocus event order f with
          book := openedBy env event order precision (openedFocus event order f) } := by
  obtain ⟨hfirst, hfocus⟩ := andThen_raised_first (fun g => openedTail_ok event order g) h
  rw [openingOn, hfocus]
  rcases andThen_raised hfirst with ⟨hopened, -⟩ | ⟨hrecords, hfocus⟩
  · cases hopened
  · rw [hfocus]
    change (openingRecords env event order precision (takesEntry event order f.position)
      (openedFocus event order f)).records = _ at hrecords
    change _ ∧ (openingRecords env event order precision (takesEntry event order f.position)
      (openedFocus event order f)).focus = _
    generalize openedFocus event order f = g at hrecords ⊢
    unfold openingRecords at hrecords ⊢
    unfold openedBy
    by_cases hown : (g.position.ours && g.position.entryOrderId = some order.orderId) = true
    · rw [if_pos hown] at hrecords ⊢
      rw [if_pos hown]
      unfold entryEvent at hrecords ⊢
      dsimp only at hrecords ⊢
      split at hrecords
      · split at hrecords <;> cases hrecords
      · rename_i haccepted
        rw [if_neg haccepted]
        split at hrecords
        · rename_i hfill
          rw [if_pos hfill]
          refine ⟨isFill_stands hfill, ?_⟩
          split at hrecords
          · rfl
          · cases hrecords
        · split at hrecords <;> cases hrecords
    · rw [if_neg hown] at hrecords ⊢
      rw [if_neg hown]
      obtain ⟨hexternal, hfocus⟩ := andThen_raised_first (fun k => ⟨_, rfl⟩) hrecords
      obtain ⟨hstands, hleft⟩ := externalEvent_raised hexternal
      exact ⟨hstands, hfocus.trans hleft⟩

/-- What `_closing` has made of the book when it raises. -/
def closingBy (env : Env) (event : ProtoOAExecutionEvent) (order : ProtoOAOrder) (precision : ℕ)
    (found : Focus × Option String) : Book :=
  match found.2 with
  | some _ => found.1.book
  | none => reportedBy env event order precision found.1.book

/-- A closing event that raises leaves the close matched. -/
theorem closingOn_raised
    (h : (closingOn env ops event order precision f).records = .error failure) :
    (closingOn env ops event order precision f).focus =
      { (matchClosing ops event order (sync event order f)).1 with
        book := closingBy env event order precision
          (matchClosing ops event order (sync event order f)) } := by
  obtain ⟨hfirst, hfocus⟩ := andThen_raised_first
    (fun g => endIfClosed_ok event (isFill event.executionType) g) h
  rw [closingOn, hfocus]
  rcases andThen_raised hfirst with ⟨htold, -⟩ | ⟨hrecords, hfocus⟩
  · cases htold
  · rw [hfocus]
    change (closingRecords env event order precision (matchClosing ops event order
      (sync event order f)).2 (matchClosing ops event order (sync event order f)).1).records = _
      at hrecords
    change (closingRecords env event order precision (matchClosing ops event order
      (sync event order f)).2 (matchClosing ops event order (sync event order f)).1).focus = _
    generalize matchClosing ops event order (sync event order f) = found at hrecords ⊢
    obtain ⟨g, closeId⟩ := found
    cases closeId with
    | some closeId =>
      show (nodeClose env event order closeId precision g).focus = g
      change (nodeClose env event order closeId precision g).records = _ at hrecords
      unfold nodeClose at hrecords ⊢
      dsimp only at hrecords ⊢
      split at hrecords
      · cases hrecords
      · rename_i haccepted
        rw [if_neg haccepted]
        split at hrecords
        · rename_i hfill
          rw [if_pos hfill]
          split at hrecords
          · rfl
          · cases hrecords
        · split at hrecords <;> cases hrecords
    | none =>
      obtain ⟨hexternal, hleft⟩ := andThen_raised_first (fun k => ⟨_, rfl⟩) hrecords
      exact hleft.trans (externalEvent_raised hexternal).2

/-- The protective order's state that `_protective` has taken when it raises. -/
theorem protectiveOn_raised
    (h : (protectiveOn env ops event order precision f).records = .error failure) :
    (protectiveOn env ops event order precision f).focus =
        { f with position :=
            if isFill event.executionType then f.position else takeProtective order f.position } ∧
      (isFill event.executionType = false → statesLevels event order f.position = true) := by
  unfold protectiveOn at h ⊢
  dsimp only at h ⊢
  -- a fill raises while it is read; a new state after its id and time are taken
  by_cases hfill : isFill event.executionType = true
  · rw [if_pos hfill] at h ⊢
    rw [if_pos hfill]
    refine ⟨?_, fun hnot => absurd (hfill.symm.trans hnot) Bool.true_eq_false.mp⟩
    rcases andThen_raised h with ⟨htold, -⟩ | ⟨htriggered, hfocus⟩
    · cases htold
    · rw [hfocus]
      change (triggered env event order precision f).records = _ at htriggered
      show (triggered env event order precision f).focus = f
      unfold triggered at htriggered ⊢
      cases hread : fillOf event.deal precision env.moneyDigits with
      | error reason => rfl
      | ok fill =>
        rw [hread] at htriggered
        dsimp only at htriggered ⊢
        cases hlevels : levelsOf order precision with
        | error reason => rfl
        | ok stated =>
          rw [hlevels] at htriggered
          obtain ⟨hfirst, -⟩ := andThen_raised_first (fun g => endIfClosed_ok ..) htriggered
          obtain ⟨htold, -⟩ := andThen_raised_first (fun g => takeTrigger_ok ..) hfirst
          cases htold
  · rw [if_neg hfill] at h ⊢
    rw [if_neg hfill]
    split at h
    · cases h
    · rename_i hretired
      rw [if_neg hretired]
      split at h
      · cases h
      · rename_i hreplaced
        rw [if_neg hreplaced]
        split at h
        · rename_i hstates
          rw [if_pos hstates]
          split at h
          · rename_i hlevels
            refine ⟨rfl, fun _ => ?_⟩
            have hkind : event.executionType = .orderAccepted ∨ event.executionType = .orderReplaced ∧
                (f.position.protectiveOrderId = none ∨
                  f.position.protectiveOrderId = some order.orderId) := by
              simp only [Bool.or_eq_true, decide_eq_true_eq] at hstates
              refine hstates.imp_right fun hkind => ⟨hkind, ?_⟩
              cases hcurrent : f.position.protectiveOrderId with
              | none => exact .inl rfl
              | some current =>
                by_contra hother
                simp [hkind, hcurrent] at hreplaced
                exact hother (.inr (congrArg some hreplaced))
            simp only [decide_eq_true_eq] at hretired
            simp [statesLevels, hretired, hfill, hkind]
          · cases h
        · split at h
          · cases h
          · cases h

/-! ## The second attempt's focus -/

/-- An event of a standing order keeps the position stored. -/
theorem stored_openingOn (hstands : endedEventKind event.executionType = none) :
    (openingOn env event order precision f).focus.stored = f.stored := by
  have hentry (g : Focus) :
      (entryEvent env event order precision g).focus.stored = g.stored := by
    unfold entryEvent
    rw [hstands]
    dsimp only
    split
    · split <;> rfl
    · split
      · split <;> rfl
      · rfl
  have hrecords (g : Focus) : (openingRecords env event order precision
      (takesEntry event order f.position) g).focus.stored = g.stored := by
    unfold openingRecords
    split
    · exact hentry g
    · exact stored_andThen (externalEvent_stored ..) fun _ => rfl
  refine stored_andThen (stored_andThen ?_ hrecords) fun g => ?_
  · exact (sync_place event order _).1
  · exact stored_andThen rfl fun _ => stored_endIfClosed ..

/-- A book with its own positions is itself. -/
theorem withPositions_self (f : Focus) : f.withPositions f.book.positions = f := by
  obtain ⟨⟨⟩, p, stored⟩ := f
  rfl

/-- A position the book holds is put back where the first attempt left it. -/
theorem positionFor_finish {b : Book} {x : ℤ} (hbook : (positionFor b event order).stored = some x)
    (hstored : g.stored = some x) : positionFor g.finish event order =
      g.withPositions (g.book.positions.set x g.position) := by
  have hid : order.positionId? = some x := by
    rcases positionFor_cases b event order with ⟨-, h⟩ | ⟨y, p, hy, -, h⟩ | ⟨y, hy, -, h⟩
    · rw [h] at hbook
      cases hbook
    · rw [h] at hbook
      exact hy.trans hbook
    · rw [h] at hbook
      exact hy.trans hbook
  have hget : g.finish.positions.get? x = some g.position := by
    unfold Focus.finish
    rw [hstored]
    exact Dict.get?_set_self ..
  unfold positionFor
  rw [hid]
  dsimp only
  rw [hget]
  unfold Focus.finish Focus.withPositions
  rw [hstored]

/-- What handles a focus alike whatever the positions beside it leaves the same book from the first
attempt's as from the book it was put back into. -/
theorem finish_again {x : ℤ} (next : Focus → Handled)
    (hnext : ∀ positions k, next (Focus.withPositions positions k) =
      (next k).withPositions positions)
    (hstored : ∀ k, (next k).focus.stored = k.stored) (hg : g.stored = some x) :
    (next (g.withPositions (g.book.positions.set x g.position))).focus.finish =
        (next g).focus.finish ∧
      (next (g.withPositions (g.book.positions.set x g.position))).records = (next g).records := by
  have hpositions : (next g).focus.book.positions = g.book.positions := by
    have hsame := hnext g.book.positions g
    rw [withPositions_self] at hsame
    rw [hsame]
    rfl
  rw [hnext]
  refine ⟨finish_withPositions ((hstored g).trans hg) fun p => ?_, rfl⟩
  rw [hpositions, Dict.set_set]

/-! ## Protective orders -/

/-- Whether the first attempt takes a protective order before its levels are kept, so that the second
sets a stop-loss that a trailing move had overtaken. -/
def dropsTrailed (order : ProtoOAOrder) (stated : Levels) (p : Position) : Bool :=
  p.protectiveOrderId ≠ some order.orderId &&
    (overtaken order p && p.levels.stopLoss.isSome && stated.stopLoss.isSome) &&
    stated.stopLoss ≠ p.levels.stopLoss

/-- A protective order is taken once. -/
theorem takeProtective_again (order : ProtoOAOrder) (p : Position) :
    takeProtective order (takeProtective order p) = takeProtective order p := by
  have hretired : (takeProtective order (takeProtective order p)).retiredProtectiveIds =
      (takeProtective order p).retiredProtectiveIds :=
    if_neg fun h => h rfl
  show { takeProtective order p with
    retiredProtectiveIds := (takeProtective order (takeProtective order p)).retiredProtectiveIds } = _
  rw [hretired]

/-- The levels the second attempt keeps: the stated ones, or with the stop-loss a move left. -/
theorem levelsAfter_again (order : ProtoOAOrder) (stated : Levels) (p : Position) :
    levelsAfter order stated (takeProtective order p) =
      if overtaken order p && p.levels.stopLoss.isSome && stated.stopLoss.isSome then
        { stated with stopLoss := p.levels.stopLoss }
      else stated := by
  show (if (some order.orderId = some order.orderId && overtaken order p &&
    p.levels.stopLoss.isSome && stated.stopLoss.isSome) = true then _ else _) = _
  rw [decide_eq_true rfl, Bool.true_and]
  rfl

/-- The levels are the same again just if no trailed stop is dropped. -/
theorem levelsAfter_again_iff (order : ProtoOAOrder) (stated : Levels) (p : Position) :
    levelsAfter order stated (takeProtective order p) = levelsAfter order stated p ↔
      dropsTrailed order stated p = false := by
  have hkept : levelsAfter order stated p =
      if p.protectiveOrderId = some order.orderId &&
        (overtaken order p && p.levels.stopLoss.isSome && stated.stopLoss.isSome) then
        { stated with stopLoss := p.levels.stopLoss }
      else stated := by
    unfold levelsAfter
    rw [Bool.and_assoc, Bool.and_assoc, Bool.and_assoc]
  rw [levelsAfter_again, hkept]
  unfold dropsTrailed
  generalize (overtaken order p && p.levels.stopLoss.isSome && stated.stopLoss.isSome) = trailed
  by_cases hcurrent : p.protectiveOrderId = some order.orderId
  · simp [hcurrent]
  · cases trailed with
    | false => simp
    | true =>
      simp only [hcurrent, decide_false, Bool.false_and, Bool.false_eq_true, if_false, if_true,
        ne_eq, not_false_eq_true, decide_true, Bool.true_and, decide_eq_false_iff_not, not_not]
      constructor
      · intro heq
        exact (congrArg (fun levels : Levels => levels.stopLoss) heq).symm
      · intro heq
        rw [← heq]

section

variable {env' : Env} {precision' : ℕ} {told : List Record}

/-- An event that states levels states them still. -/
theorem statesLevels_takeProtective (hstates : statesLevels event order f.position = true) :
    statesLevels event order (takeProtective order f.position) = true := by
  have hnew : order.orderId ∉ (takeProtective order f.position).retiredProtectiveIds := by
    have hold : order.orderId ∉ f.position.retiredProtectiveIds := by
      simp only [statesLevels, Bool.and_eq_true, decide_eq_true_eq] at hstates
      exact hstates.1.1
    unfold takeProtective
    dsimp only
    split
    · split
      · rename_i hother
        rw [Finset.mem_insert, not_or]
        exact ⟨fun heq => hother heq.symm, hold⟩
      · exact hold
    · exact hold
  have hcurrent : (takeProtective order f.position).protectiveOrderId = some order.orderId := rfl
  simp only [statesLevels, Bool.and_eq_true, Bool.or_eq_true, decide_eq_true_eq] at hstates ⊢
  exact ⟨⟨hnew, hstates.1.2⟩, hstates.2.imp_right fun h => ⟨h.1, .inr hcurrent⟩⟩

/-- What each attempt at a protective order's new state makes of the position, once the prices can be
read. -/
theorem protectiveOn_attempts
    (hraised : (protectiveOn env ops event order precision f).records = .error failure)
    (hok : (protectiveOn env' ops event order precision' f).records = .ok told)
    (hfill : isFill event.executionType = false) :
    ∃ stated, levelsOf order precision' = .ok stated ∧
      protectiveOn env' ops event order precision' f =
        protectiveChanged env' ops event order f.position.levels
          { f with position := setProtective order stated f.position } ∧
      protectiveOn env' ops event order precision'
          (protectiveOn env ops event order precision f).focus =
        protectiveChanged env' ops event order f.position.levels
          { f with position := { setProtective order stated f.position with
            levels := levelsAfter order stated (takeProtective order f.position) } } := by
  obtain ⟨hleft, hstates⟩ := protectiveOn_raised hraised
  rw [hfill] at hleft hstates
  rw [if_neg Bool.false_ne_true] at hleft
  have hstates := hstates rfl
  cases hlevels : levelsOf order precision' with
  | error reason =>
    rw [protectiveOn_of_states hstates, hlevels] at hok
    cases hok
  | ok stated =>
    refine ⟨stated, rfl, protectiveOn_states hstates hlevels, ?_⟩
    rw [hleft]
    refine (protectiveOn_states (statesLevels_takeProtective hstates) hlevels).trans ?_
    show protectiveChanged env' ops event order f.position.levels
      { f with position := setProtective order stated (takeProtective order f.position) } = _
    have hset : setProtective order stated (takeProtective order f.position) =
        { setProtective order stated f.position with
          levels := levelsAfter order stated (takeProtective order f.position) } := by
      unfold setProtective
      rw [takeProtective_again]
      rfl
    rw [hset]

/-- A protective event tells again what its first attempt did not, unless it drops a trailed stop. -/
theorem protectiveOn_again
    (hraised : (protectiveOn env ops event order precision f).records = .error failure)
    (hok : (protectiveOn env' ops event order precision' f).records = .ok told)
    (hkeeps : isFill event.executionType = true ∨
      ∀ stated, levelsOf order precision' = .ok stated →
        dropsTrailed order stated f.position = false) :
    protectiveOn env' ops event order precision'
        (protectiveOn env ops event order precision f).focus =
      protectiveOn env' ops event order precision' f := by
  by_cases hfill : isFill event.executionType = true
  · rw [(protectiveOn_raised hraised).1, if_pos hfill]
  · rw [Bool.not_eq_true] at hfill
    obtain ⟨stated, hstated, hdirect, hagain⟩ := protectiveOn_attempts hraised hok hfill
    have hkept := hkeeps.resolve_left (by rw [hfill]; exact Bool.false_ne_true) stated hstated
    rw [hagain, hdirect, (levelsAfter_again_iff order stated f.position).mpr hkept]
    rfl

/-- Telling of levels changes none. -/
theorem protectiveChanged_levels (oldLevels : Levels) :
    (protectiveChanged env ops event order oldLevels f).focus.position.levels =
      f.position.levels := by
  refine Eq.trans ?_ (sync_levels event order f)
  show (protectiveChanged env ops event order oldLevels f).focus.position.outline.levels = _
  rw [outline_protectiveChanged]
  rfl

/-- The second attempt leaves another stop-loss than the only one would have. -/
theorem protectiveOn_drops {stated : Levels}
    (hraised : (protectiveOn env ops event order precision f).records = .error failure)
    (hok : (protectiveOn env' ops event order precision' f).records = .ok told)
    (hfill : isFill event.executionType = false) (hstated : levelsOf order precision' = .ok stated)
    (hdrops : dropsTrailed order stated f.position = true) :
    (protectiveOn env' ops event order precision'
        (protectiveOn env ops event order precision f).focus).focus.position ≠
      (protectiveOn env' ops event order precision' f).focus.position := by
  obtain ⟨stated', hstated', hdirect, hagain⟩ := protectiveOn_attempts hraised hok hfill
  obtain rfl : stated' = stated := Except.ok.inj (hstated'.symm.trans hstated)
  intro heq
  have hlevels := congrArg Position.levels heq
  rw [hagain, hdirect, protectiveChanged_levels, protectiveChanged_levels] at hlevels
  have hkept := (levelsAfter_again_iff order stated' f.position).mp hlevels
  rw [hdrops] at hkept
  cases hkept

end

/-! ## Records told once -/

/-- Whether a record tells what a second attempt does not tell again: an order reported, a notice, a
leg updated. -/
def announces : Record → Bool
  | .externalOrder _ | .notice _ => true
  | .orderEvent news => news.kind = .updated
  | _ => false

def announced (told : List Record) : ℕ := told.countP announces

/-- Announcements add up. -/
theorem announced_append (told later : List Record) :
    announced (told ++ later) = announced told + announced later := List.countP_append

/-- Nothing is announced where no record announces. -/
theorem announced_eq_zero {told : List Record} :
    announced told = 0 ↔ ∀ record ∈ told, announces record = false := by
  unfold announced
  rw [List.countP_eq_zero]
  simp only [Bool.not_eq_true]

/-- Legs announce what each of them does. -/
theorem announced_overLegs {change : Level → Leg → Leg × List Record} {p : Position}
    (hchange : ∀ level leg, announced (change level leg).2 = 0) : announced (p.overLegs change).2 = 0 := by
  have hstep (q : Position) (level : Level) : announced (legStep change q level).2 = 0 := by
    unfold legStep
    split
    · rfl
    · exact hchange ..
  rw [overLegs_eq]
  show announced (_ ++ _) = 0
  rw [announced_append, hstep, hstep]

/-- Cancelled legs announce nothing. -/
theorem announced_cancelLegs (ts : ℤ) (p : Position) : announced (cancelLegs ts p).2 = 0 := by
  refine announced_overLegs fun level leg => ?_
  split
  · rfl
  · rfl

/-- Nor do foreign ones. -/
theorem announced_cancelAll (ts : ℤ) (p : Position) :
    announced (ForeignLegs.cancelAll ts p).2 = 0 := by
  show announced (p.foreignLegs.mapAccum _).2 = 0
  rw [announced_eq_zero, Dict.mapAccum_emitted]
  intro record hrecord
  obtain ⟨entry, -, hsaid⟩ := List.mem_flatMap.mp hrecord
  split at hsaid
  · rw [List.mem_singleton.mp hsaid]
    rfl
  · cases hsaid

/-- Nor does a close. -/
theorem announced_closedBy (deal : ProtoOADeal) (p : Position) :
    announced (closedBy deal p).2 = 0 := by
  show announced (_ ++ _) = 0
  rw [announced_append, announced_cancelLegs, announced_cancelAll]

/-- Nor does the end of a position. -/
theorem announced_endIfClosed {asked : Bool} {told : List Record}
    (hok : (endIfClosed event asked f).records = .ok told) : announced told = 0 := by
  unfold endIfClosed at hok
  split at hok
  · rw [← Except.ok.inj hok]
    exact announced_closedBy ..
  · rw [← Except.ok.inj hok]
    rfl

/-- An order not reported yet is announced by its report. -/
theorem announced_externalEvent {reduceOnly : Bool} {told : List Record}
    (hnew : order.orderId ∉ f.book.reported)
    (hkind : event.executionType = .orderAccepted ∨ isFill event.executionType = true)
    (hok : (externalEvent env event order precision reduceOnly f).records = .ok told) :
    announced told = 1 := by
  have hreport {fills : List Fill} {g : Focus}
      (htold : (reportExternal order precision reduceOnly fills g).records = .ok told) :
      announced told = 1 := by
    unfold reportExternal at htold
    dsimp only at htold
    split at htold
    · cases htold
    · rw [← Except.ok.inj htold]
      rfl
  have hunknown : ¬ decide (order.orderId ∈ f.book.reported) = true := by simpa using hnew
  unfold externalEvent at hok
  dsimp only at hok
  rw [if_neg hunknown] at hok
  by_cases haccepted : event.executionType = .orderAccepted
  · rw [if_pos haccepted] at hok
    exact hreport hok
  · rw [if_neg haccepted, if_pos (hkind.resolve_left haccepted)] at hok
    split at hok
    · cases hok
    · rw [if_neg hunknown] at hok
      exact hreport hok

/-- An order reported before is not announced by its acceptance or its fill. -/
theorem announced_externalEvent_known {reduceOnly : Bool} {told : List Record}
    (hknown : order.orderId ∈ f.book.reported)
    (hkind : event.executionType = .orderAccepted ∨ isFill event.executionType = true)
    (hok : (externalEvent env event order precision reduceOnly f).records = .ok told) :
    announced told = 0 := by
  have hheld : decide (order.orderId ∈ f.book.reported) = true := decide_eq_true hknown
  unfold externalEvent at hok
  dsimp only at hok
  rw [if_pos hheld] at hok
  by_cases haccepted : event.executionType = .orderAccepted
  · rw [if_pos haccepted] at hok
    rw [← Except.ok.inj hok]
    rfl
  · rw [if_neg haccepted, if_pos (hkind.resolve_left haccepted)] at hok
    split at hok
    · cases hok
    · rw [if_pos hheld] at hok
      rw [← Except.ok.inj hok]
      rfl

/-- Nor does a close's activity. -/
theorem announced_closeActivity (p : Position) :
    announced (closeActivity event order p) = 0 := by
  unfold closeActivity
  dsimp only
  split
  · rfl
  · split
    · rfl
    · rfl

/-! ## Closing orders -/

/-- `_closing` from the close it has matched. -/
def closingFrom (env : Env) (event : ProtoOAExecutionEvent) (order : ProtoOAOrder) (precision : ℕ)
    (found : Focus × Option String) : Handled :=
  let unnamed : List Record :=
    if isFill event.executionType && event.isServerEvent && !order.isStopOut then
      [unnamedClose found.1.position event.deal]
    else []
  ((found.1.tell unnamed).andThen (closingRecords env event order precision found.2)).andThen
    (endIfClosed event (isFill event.executionType))

/-- A closing event goes on from the close it matched. -/
theorem closingOn_from : closingOn env ops event order precision f =
    closingFrom env event order precision (matchClosing ops event order (sync event order f)) := rfl

/-- Marking an order as reported takes it from no close. -/
theorem matchClosing_again {found : Focus × Option String} {b' : Book}
    (hfound : matchClosing ops event order f = found)
    (hcloses : b'.closes = found.1.book.closes)
    (hreported : found.2 = none → ∀ x, x ∈ found.1.book.reported → x ∈ b'.reported) :
    matchClosing ops event order { found.1 with book := b' } =
      ({ found.1 with book := b' }, found.2) := by
  unfold matchClosing at hfound ⊢
  dsimp only
  rw [hcloses]
  cases hheld : f.book.closes.get? order.orderId with
  | some closeId =>
    rw [hheld] at hfound
    subst hfound
    dsimp only
    rw [hheld]
  | none =>
    rw [hheld] at hfound
    dsimp only at hfound
    split at hfound
    · split at hfound
      · rename_i candidate hasked
        split at hfound
        · rename_i htaken
          subst hfound
          dsimp only
          rw [hheld]
          dsimp only
          rw [hasked]
          dsimp only
          rw [if_pos htaken, ite_self]
        · subst hfound
          dsimp only
          rw [Dict.get?_set_self]
      · rename_i hasked
        subst hfound
        dsimp only
        rw [hheld]
        dsimp only
        rw [hasked, ite_self]
    · rename_i hbrokers
      subst hfound
      dsimp only
      rw [hheld]
      refine if_neg fun hours => hbrokers ?_
      simp only [Bool.and_eq_true, decide_eq_true_eq] at hours ⊢
      exact ⟨hours.1, fun hin => hours.2 (hreported rfl order.orderId hin)⟩

/-- A report touches what is reported only. -/
theorem reportedBy_fields (env : Env) (event : ProtoOAExecutionEvent) (order : ProtoOAOrder)
    (precision : ℕ) (b : Book) :
    (reportedBy env event order precision b).positions = b.positions ∧
      (reportedBy env event order precision b).closes = b.closes ∧
      (reportedBy env event order precision b).syncedDeals = b.syncedDeals ∧
      (reportedBy env event order precision b).endedEntries = b.endedEntries ∧
      (∀ x, x ∈ b.reported → x ∈ (reportedBy env event order precision b).reported) := by
  have hkept (known : Bool) :
      (keepOpenOrder event order known b).1 =
        { b with openOrders := (keepOpenOrder event order known b).1.openOrders } := by
    unfold keepOpenOrder
    dsimp only
    repeat' split
    all_goals rfl
  unfold reportedBy
  dsimp only
  rw [hkept]
  split
  · exact ⟨rfl, rfl, rfl, rfl, fun x hx => Finset.mem_insert_of_mem hx⟩
  · exact ⟨rfl, rfl, rfl, rfl, fun x hx => hx⟩

/-- An order learnt only from reports is told alike from the book a first attempt left, unless that
attempt marked it as reported. -/
theorem externalEvent_reportedBy {env' : Env} {precision' : ℕ} {reduceOnly : Bool}
    (hmarks : marksFirst env event order precision f.book = false) :
    externalEvent env' event order precision' reduceOnly
        { f with book := reportedBy env event order precision f.book } =
      externalEvent env' event order precision' reduceOnly f := by
  have hkept : reportedBy env event order precision f.book =
      (keepOpenOrder event order (order.orderId ∈ f.book.reported) f.book).1 :=
    if_neg (by rw [hmarks]; exact Bool.false_ne_true)
  rw [hkept]
  exact externalEvent_again ..

/-- An event marks its order first when it is new, and accepts or fills it. -/
theorem marksFirst_iff {b : Book} : marksFirst env event order precision b = true →
    order.orderId ∉ b.reported ∧
      (event.executionType = .orderAccepted ∨ isFill event.executionType = true) ∧
      order.orderId ∈ (reportedBy env event order precision b).reported := by
  intro hmarks
  have hin : order.orderId ∈ (reportedBy env event order precision b).reported := by
    unfold reportedBy
    dsimp only
    rw [if_pos hmarks]
    exact Finset.mem_insert_self ..
  simp only [marksFirst, Bool.and_eq_true, decide_eq_true_eq, Bool.or_eq_true] at hmarks
  exact ⟨hmarks.1, hmarks.2.imp_right (·.1), hin⟩

/-- What announces nothing announces nothing on a condition. -/
theorem announced_ite {c : Prop} [Decidable c] {told : List Record} (h : announced told = 0) :
    announced (if c then told else []) = 0 := by
  split
  · exact h
  · rfl

/-- What `_closing` announces besides an order's report is the notice of a close no event names. -/
theorem announced_closingFrom {told : List Record}
    (hok : (closingFrom env event order precision (f, none)).records = .ok told) :
    ∃ report, (externalEvent env event order precision true f).records = .ok report ∧
      announced told = announced (if isFill event.executionType && event.isServerEvent &&
        !order.isStopOut then [unnamedClose f.position event.deal] else []) + announced report := by
  obtain ⟨first, ending, hfirst, hending, rfl⟩ := told_andThen hok
  obtain ⟨unnamed, records, hunnamed, hrecords, rfl⟩ := told_andThen hfirst
  obtain ⟨report, activity, hreport, hactivity, rfl⟩ := told_andThen hrecords
  refine ⟨report, hreport, ?_⟩
  have hplain : announced activity = 0 := by
    rw [← Except.ok.inj hactivity]
    exact announced_ite (announced_closeActivity _)
  rw [announced_append, announced_append, announced_append, announced_endIfClosed hending, hplain,
    ← Except.ok.inj hunnamed, Nat.add_zero, Nat.add_zero]

/-- A handler goes on alike from alike. -/
theorem tell_andThen_congr {k : Focus} {told : List Record} {next next' : Focus → Handled}
    (h : next f = next' k) : (f.tell told).andThen next = (k.tell told).andThen next' := by
  show Handled.mk (next f).focus ((next f).records.map (told ++ ·)) = _
  rw [h]
  rfl

/-- Where the second attempt at a closing order starts: from the state synced, the close matched. -/
theorem closingOn_retry {env' : Env} {precision' : ℕ} {k : Focus}
    (hraised : (closingOn env ops event order precision f).records = .error failure)
    (hk : sync event order k = (closingOn env ops event order precision f).focus) :
    closingOn env' ops event order precision' k =
      closingFrom env' event order precision'
        ((closingOn env ops event order precision f).focus,
          (matchClosing ops event order (sync event order f)).2) := by
  rw [closingOn_from, hk, closingOn_raised hraised]
  generalize hfound : matchClosing ops event order (sync event order f) = found
  obtain ⟨g, closeId⟩ := found
  cases closeId with
  | some closeId =>
    have hcloses : (closingBy env event order precision (g, some closeId)).closes = g.book.closes :=
      rfl
    rw [matchClosing_again hfound hcloses fun h => by cases h]
  | none =>
    obtain ⟨-, hcloses, -, -, hreported⟩ := reportedBy_fields env event order precision g.book
    have hcloses : (closingBy env event order precision (g, none)).closes = g.book.closes := hcloses
    rw [matchClosing_again hfound hcloses fun _ => hreported]

/-- Whether `_closing` takes an order for the node's close. -/
def nodesClose (ops : Operations) (event : ProtoOAExecutionEvent) (order : ProtoOAOrder)
    (b : Book) (p : Position) : Bool :=
  b.closes.contains order.orderId ||
    !event.isServerEvent && !order.isStopOut && order.orderId ∉ b.reported &&
      ((ops.closing p.positionId order.tradeData.volume (createdOf order) order.orderId).any
        fun candidate => candidate ∉ b.closes.values)

/-- A close is matched just if it is the node's. -/
theorem matchClosing_isSome :
    (matchClosing ops event order f).2.isSome = nodesClose ops event order f.book f.position := by
  unfold matchClosing nodesClose Dict.contains
  cases f.book.closes.get? order.orderId with
  | some closeId => rfl
  | none =>
    dsimp only
    split
    · rename_i hours
      rw [hours]
      split
      · rename_i candidate hasked
        rw [hasked]
        split
        · rename_i htaken
          simp [htaken]
        · rename_i hfree
          simp [hfree]
      · rename_i hasked
        rw [hasked]
        rfl
    · rename_i hbrokers
      rw [Bool.not_eq_true] at hbrokers
      rw [hbrokers]
      rfl

/-- The second attempt at a closing order leaves and tells what the only one would, unless the first
marked an order as reported. -/
theorem closingOn_again {env' : Env} {precision' : ℕ} {k : Focus}
    (hraised : (closingOn env ops event order precision f).records = .error failure)
    (hk : sync event order k = (closingOn env ops event order precision f).focus)
    (hkeeps : nodesClose ops event order (sync event order f).book (sync event order f).position =
        true ∨ marksFirst env event order precision (sync event order f).book = false) :
    closingOn env' ops event order precision' k = closingOn env' ops event order precision' f := by
  rw [closingOn_retry hraised hk, closingOn_raised hraised, closingOn_from]
  rw [← matchClosing_isSome] at hkeeps
  have hbook : (matchClosing ops event order (sync event order f)).2 = none →
      (matchClosing ops event order (sync event order f)).1 = sync event order f := matchClosing_none
  generalize matchClosing ops event order (sync event order f) = found at hkeeps hbook ⊢
  obtain ⟨g, closeId⟩ := found
  cases closeId with
  | some closeId => rfl
  | none =>
    obtain rfl : g = sync event order f := hbook rfl
    have hmarks := hkeeps.resolve_left Bool.false_ne_true
    have hrecords : closingRecords env' event order precision' none
          { sync event order f with
            book := reportedBy env event order precision (sync event order f).book } =
        closingRecords env' event order precision' none (sync event order f) := by
      unfold closingRecords
      dsimp only
      rw [externalEvent_reportedBy hmarks]
    exact congrArg (fun h : Handled => h.andThen (endIfClosed event (isFill event.executionType)))
      (tell_andThen_congr hrecords)

/-- An order the first attempt marked as reported is not reported by the second. -/
theorem closingOn_misses {env' : Env} {precision' : ℕ} {k : Focus} {told : List Record}
    (hraised : (closingOn env ops event order precision f).records = .error failure)
    (hok : (closingOn env' ops event order precision' f).records = .ok told)
    (hk : sync event order k = (closingOn env ops event order precision f).focus)
    (hexternal : nodesClose ops event order (sync event order f).book (sync event order f).position =
        false)
    (hmarks : marksFirst env event order precision (sync event order f).book = true) :
    (closingOn env' ops event order precision' k).records ≠
      (closingOn env' ops event order precision' f).records := by
  intro heq
  rw [hok, closingOn_retry hraised hk, closingOn_raised hraised] at heq
  rw [closingOn_from] at hok
  rw [← matchClosing_isSome] at hexternal
  have hbook : (matchClosing ops event order (sync event order f)).2 = none →
      (matchClosing ops event order (sync event order f)).1 = sync event order f := matchClosing_none
  generalize matchClosing ops event order (sync event order f) = found at heq hok hexternal hbook
  obtain ⟨g, closeId⟩ := found
  cases closeId with
  | some closeId => cases hexternal
  | none =>
    obtain rfl : g = sync event order f := hbook rfl
    obtain ⟨hnew, hkind, hin⟩ := marksFirst_iff hmarks
    obtain ⟨report, hreport, htold⟩ := announced_closingFrom hok
    obtain ⟨again, hagain, htold'⟩ := announced_closingFrom heq
    have hfirst := announced_externalEvent hnew hkind hreport
    have hsecond := announced_externalEvent_known hin hkind hagain
    change announced told = announced (if _ then [unnamedClose (sync event order f).position
      event.deal] else []) + announced again at htold'
    omega

end VenueBook

end NautilusCtrader
