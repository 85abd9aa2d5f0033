import NautilusCtrader.Common.Turns
import NautilusCtrader.Execution.OrderTranslation
import NautilusCtrader.VenueBook.NewestLevels

/-!
# Amends of a position's levels and of a pending order

An amend states everything that is to stand, so one worked out from a stale view would take away what
another set. The commands on a position take turns at its lock, those on a pending order at the
order's, and each works its request out once it holds the lock. A lock of a position or order no
longer open is let go by the table after any event, unless it is held; but one that its holder has
just let go of is waited for and not held. Where no lock is let go that a command waits for, no
update is lost (`amends_lose_none`); where one is, a command that comes later does not wait for those
before it (`update_lost`).
-/

namespace NautilusCtrader

open Common VenueBook OrderTranslation

namespace Execution

/-! ## What the amends read -/

/-- The levels a bracket asks for: its legs by level, the prices asked for them, and the levels whose
leg was cancelled meanwhile. -/
structure Bracket where
  legs : ByLevel String := {}
  requested : ByLevel ℚ := {}
  cancels : Finset Level := ∅
deriving DecidableEq

/-- What of the execution client the amends read. -/
structure Held where
  env : Env
  book : Book
  brackets : Dict String Bracket := Dict.empty

namespace Held

/-- The bracket of an entry. It stays as it was for a command that holds it once it is done. -/
def bracket (s : Held) (entryId : String) : Bracket := (s.brackets.get? entryId).getD {}

end Held

/-- An execution event, with the answers the operations in flight give while it is applied. -/
structure Applied where
  ops : Operations
  event : ProtoOAExecutionEvent

/-- Any other change. -/
inductive Change
  /-- A call on the book that applies no execution event. -/
  | book (operation : Operation)
  | env (env : Env)
  | bracket (entryId : String) (bracket : Bracket)

namespace Held

/-- What `_apply_execution_event` does to the book. -/
def applyExecutionEvent (s : Held) (applied : Applied) : Held :=
  { s with book := (apply s.env applied.ops s.book applied.event).1 }

def change (s : Held) : Change → Held
  | .book (.apply ..) => s
  | .book operation => { s with book := (perform s.book operation).1 }
  | .env env => { s with env }
  | .bracket entryId bracket => { s with brackets := s.brackets.set entryId bracket }

end Held

/-! ## Commands on a position's levels -/

/-- What amends a position's levels. -/
inductive Command
  /-- `_amend_legs`: the node's legs to cancel, and those to move with their prices. -/
  | legs (cancels : ByLevel String) (moves : ByLevel (String × ℚ))
  /-- `_remove_foreign_levels`: the foreign legs by venue order id. -/
  | removeForeign (legs : ByLevel String)
  /-- `_modify_foreign_leg`. -/
  | moveForeign (level : Level) (venueOrderId : String) (wanted : ℚ)
  /-- `_correct`: the amend of a bracket. -/
  | correct (entryId : String)
  /-- `_set_missing_levels`. -/
  | setMissing (entryId : String) (missing : Finset Level)

/-- `_foreign_live`. -/
def foreignLive (p : Position) (level : Level) (venueOrderId : String) : Bool :=
  match p.foreignLegs.get? level with
  | some leg => leg.alive && leg.venueOrderId = venueOrderId
  | none => false

/-- `view.legs.get(level, (…, False))[1]`. -/
def legAlive (p : Position) (level : Level) : Bool :=
  match p.legs.get? level with
  | some leg => leg.alive
  | none => false

/-- `levels_of` of `_amend_legs`: a move whose leg ended while it waited is left out. -/
def legLevels (cancels : ByLevel String) (moves : ByLevel (String × ℚ)) (p : Position) : Levels :=
  .ofFn fun level =>
    let kept := if (cancels.get? level).isSome then none else p.levels.get? level
    match moves.get? level with
    | some (_, wanted) => if legAlive p level then some wanted else kept
    | none => kept

/-- `levels_of` of `_remove_foreign_levels`. -/
def withoutForeign (legs : ByLevel String) (p : Position) : Levels :=
  .ofFn fun level =>
    match legs.get? level with
    -- A level put back since the command is a new leg, not the one cancelled.
    | some venueOrderId => if foreignLive p level venueOrderId then none else p.levels.get? level
    | none => p.levels.get? level

/-- `levels_of` of `_modify_foreign_leg`. -/
def withForeign (level : Level) (venueOrderId : String) (wanted : ℚ) (p : Position) : Levels :=
  if !foreignLive p level venueOrderId then p.levels else p.levels.set level wanted

/-- `bracket.requested[level]` of each level a command sets: none raises. -/
def allRequested (bracket : Bracket) (sets : Level → Bool) : Bool :=
  Level.all.all fun level => !sets level || (bracket.requested.get? level).isSome

/-- The levels `_wanted_levels` sets to the prices asked for: those of the live legs not cancelled. -/
def correctsLevel (bracket : Bracket) (p : Position) (level : Level) : Bool :=
  (bracket.legs.get? level).isSome && level ∉ bracket.cancels && legAlive p level

/-- `_wanted_levels`: the broker's levels, with each live leg's at its asked price and a cancelled one
gone. -/
def wantedLevels (bracket : Bracket) (p : Position) : Option Levels :=
  if allRequested bracket (correctsLevel bracket p) then
    some <| .ofFn fun level =>
      if (bracket.legs.get? level).isSome && level ∈ bracket.cancels then none
      else if correctsLevel bracket p level then bracket.requested.get? level
      else p.levels.get? level
  else none

/-- The levels `_set_missing_levels` sets. -/
def setsMissing (bracket : Bracket) (missing : Finset Level) (level : Level) : Bool :=
  level ∈ missing && level ∉ bracket.cancels

/-- `levels_of` of `_set_missing_levels`. -/
def withMissing (bracket : Bracket) (missing : Finset Level) (p : Position) : Option Levels :=
  if allRequested bracket (setsMissing bracket missing) then
    some <| .ofFn fun level =>
      if setsMissing bracket missing level then bracket.requested.get? level
      else p.levels.get? level
  else none

/-- The levels a command asks for, on the position as it is when its turn comes. -/
def levelsOf (s : Held) (p : Position) : Command → Option Levels
  | .legs cancels moves => some (legLevels cancels moves p)
  | .removeForeign legs => some (withoutForeign legs p)
  | .moveForeign level venueOrderId wanted => some (withForeign level venueOrderId wanted p)
  | .correct entryId => wantedLevels (s.bracket entryId) p
  | .setMissing entryId missing => withMissing (s.bracket entryId) missing p

/-- The levels a command names. -/
def names (s : Held) : Command → Level → Bool
  | .legs cancels moves, level => (cancels.get? level).isSome || (moves.get? level).isSome
  | .removeForeign legs, level => (legs.get? level).isSome
  | .moveForeign moved _ _, level => level = moved
  | .correct entryId, level => ((s.bracket entryId).legs.get? level).isSome
  | .setMissing _ missing, level => level ∈ missing

/-- What a command makes of a level, on the position as it is when its turn comes: nothing, or the
price it sets or none. -/
def asks (s : Held) (p : Position) : Command → Level → Option (Option ℚ)
  | .legs cancels moves, level =>
    let cancelled := if (cancels.get? level).isSome then some none else none
    match moves.get? level with
    | some (_, wanted) => if legAlive p level then some (some wanted) else cancelled
    | none => cancelled
  | .removeForeign legs, level =>
    match legs.get? level with
    | some venueOrderId => if foreignLive p level venueOrderId then some none else none
    | none => none
  | .moveForeign moved venueOrderId wanted, level =>
    if level = moved ∧ foreignLive p moved venueOrderId then some (some wanted) else none
  | .correct entryId, level =>
    let bracket := s.bracket entryId
    if (bracket.legs.get? level).isSome && level ∈ bracket.cancels then some none
    else if correctsLevel bracket p level then some (bracket.requested.get? level)
    else none
  | .setMissing entryId missing, level =>
    let bracket := s.bracket entryId
    if setsMissing bracket missing level then some (bracket.requested.get? level) else none

/-- The levels once each that something is asked of is set or removed. -/
def editLevels (edits : Level → Option (Option ℚ)) (levels : Levels) : Levels :=
  .ofFn fun level => (edits level).getD (levels.get? level)

/-- A command asks for the levels the position has, but for what it asks of them. -/
theorem levelsOf_eq {s : Held} {p : Position} {command : Command} {levels : Levels}
    (h : levelsOf s p command = some levels) :
    levels = editLevels (asks s p command) p.levels := by
  -- level by level: what the command asks of it, else the level held
  refine ByLevel.ext_get? fun level => ?_
  unfold editLevels
  rw [ByLevel.get?_ofFn]
  cases command with
  | legs cancels moves =>
    injection h with h
    rw [← h]
    unfold legLevels asks
    rw [ByLevel.get?_ofFn]
    cases hmove : moves.get? level with
    | none =>
      simp only [hmove]
      split <;> rfl
    | some move =>
      simp only [hmove]
      by_cases halive : legAlive p level = true
      · rw [if_pos halive, if_pos halive]
        rfl
      · rw [if_neg halive, if_neg halive]
        split <;> rfl
  | removeForeign legs =>
    injection h with h
    rw [← h]
    unfold withoutForeign asks
    rw [ByLevel.get?_ofFn]
    cases hleg : legs.get? level with
    | none =>
      simp only [hleg]
      rfl
    | some venueOrderId =>
      simp only [hleg]
      split <;> rfl
  | moveForeign moved venueOrderId wanted =>
    injection h with h
    rw [← h]
    unfold withForeign
    dsimp only [asks]
    -- a foreign leg moved in the meantime leaves the command without effect
    by_cases hlive : foreignLive p moved venueOrderId = true
    · rw [hlive, Bool.not_true, if_neg Bool.false_ne_true, ByLevel.get?_set]
      by_cases hlevel : level = moved
      · rw [if_pos hlevel.symm, if_pos ⟨hlevel, rfl⟩]
        rfl
      · rw [if_neg (fun h => hlevel h.symm), if_neg (fun h => hlevel h.1)]
        rfl
    · rw [Bool.not_eq_true] at hlive
      rw [hlive, Bool.not_false, if_pos rfl, if_neg (fun h => by cases h.2)]
      rfl
  | correct entryId =>
    unfold levelsOf wantedLevels at h
    dsimp only at h
    split at h
    · injection h with h
      rw [← h]
      unfold asks
      rw [ByLevel.get?_ofFn]
      dsimp only
      split
      · rfl
      · split <;> rfl
    · cases h
  | setMissing entryId missing =>
    unfold levelsOf withMissing at h
    dsimp only at h
    split at h
    · injection h with h
      rw [← h]
      unfold asks
      rw [ByLevel.get?_ofFn]
      dsimp only
      split <;> rfl
    · cases h

/-- A command asks nothing of a level it does not name. -/
theorem asks_unnamed {s : Held} {p : Position} {command : Command} {level : Level}
    (h : names s command level = false) : asks s p command level = none := by
  cases command with
  | legs cancels moves =>
    simp only [names, Bool.or_eq_false_iff, Option.isSome_eq_false_iff, Option.isNone_iff_eq_none] at h
    simp [asks, h.1, h.2]
  | removeForeign legs =>
    simp only [names, Option.isSome_eq_false_iff, Option.isNone_iff_eq_none] at h
    simp [asks, h]
  | moveForeign moved venueOrderId wanted =>
    have hlevel : level ≠ moved := by simpa [names] using h
    exact if_neg fun hmoved => hlevel hmoved.1
  | correct entryId =>
    simp only [names] at h
    simp [asks, correctsLevel, h]
  | setMissing entryId missing =>
    have hlevel : level ∉ missing := by simpa [names] using h
    simp [asks, setsMissing, hlevel]

/-! ## The lock of a position -/

/-- The levels an amend asks for with the terms it sends again, and what of it its command asks. -/
structure Amend where
  levels : Levels
  terms : Option LevelTerms
  edits : ByLevel (Option ℚ)
deriving DecidableEq

/-- `amend_levels` of an amend. -/
def Amend.request (asDouble : ℚ → Double) (amend : Amend) (positionId : ℤ) :
    ProtoOAAmendPositionSLTPReq :=
  amendLevels asDouble positionId amend.levels amend.terms

/-- `_level_price` of both levels: a price that does not fit raises. -/
def levelsFit (levels : Levels) (precision : ℕ) : Bool :=
  levels.values.all fun price => fits price precision

/-- `_amend` from where it holds the lock to where it sends. -/
def levelTurn (positionId : ℤ) (s : Held) (command : Command) : Turn Amend :=
  match s.book.positions.get? positionId with
  | none => .refused
  | some p =>
    if !p.isOpen then .refused
    else
      match levelsOf s p command with
      | none => .refused
      | some levels =>
        let amend : Amend := ⟨levels, p.terms, .ofFn (asks s p command)⟩
        if levels = p.levels then .stands amend
        else
          match s.env.pricePrecision p.symbolId with
          | none => .refused
          | some precision => if levelsFit levels precision then .asks amend else .refused

/-- What an amend's turn comes to is worked out from the position as it is then. -/
theorem levelTurn_request {positionId : ℤ} {s : Held} {command : Command} {amend : Amend}
    (h : levelTurn positionId s command = .asks amend ∨
      levelTurn positionId s command = .stands amend) :
    ∃ p, s.book.positions.get? positionId = some p ∧ levelsOf s p command = some amend.levels ∧
      amend.edits = .ofFn (asks s p command) ∧
      (levelTurn positionId s command = .stands amend → amend.levels = p.levels) := by
  unfold levelTurn at h ⊢
  -- the command asks nothing of a position that is gone, closed, or as wanted already
  cases hposition : s.book.positions.get? positionId with
  | none => simp [hposition] at h
  | some p =>
    simp only [hposition] at h ⊢
    split at h
    · simp at h
    · rename_i hopen
      cases hlevels : levelsOf s p command with
      | none => simp [hlevels] at h
      | some levels =>
        simp only [hlevels] at h ⊢
        split at h
        · rename_i hsame
          have hamend : amend = ⟨levels, p.terms, .ofFn (asks s p command)⟩ := by
            rcases h with h | h
            · cases h
            · exact (Turn.stands.inj h).symm
          refine ⟨p, rfl, ?_, ?_, fun _ => ?_⟩
          · rw [hlevels, hamend]
          · rw [hamend]
          · rw [hamend]
            exact hsame
        · rename_i hdiffers
          have hamend : amend = ⟨levels, p.terms, .ofFn (asks s p command)⟩ := by
            split at h
            · simp at h
            · split at h
              · rcases h with h | h
                · exact (Turn.asks.inj h).symm
                · cases h
              · simp at h
          refine ⟨p, rfl, ?_, ?_, fun hstands => ?_⟩
          · rw [hlevels, hamend]
          · rw [hamend]
          · rw [if_neg hopen, if_neg hdiffers] at hstands
            split at hstands
            · cases hstands
            · split at hstands <;> cases hstands

/-- What an amend makes of the levels, one after another. -/
def Amend.edit (amend : Amend) (levels : Option Levels) : Option Levels :=
  levels.map (editLevels amend.edits.get?)

/-- An amend's levels are its edit of the levels held. -/
theorem Amend.edit_eq {positionId : ℤ} {s : Held} {command : Command} {amend : Amend}
    (h : levelTurn positionId s command = .asks amend ∨
      levelTurn positionId s command = .stands amend) :
    some amend.levels = amend.edit (levelsHeld s.book positionId) := by
  obtain ⟨p, hposition, hlevels, hedits, -⟩ := levelTurn_request h
  unfold Amend.edit levelsHeld
  rw [hposition, hedits]
  have hget : (ByLevel.ofFn (asks s p command)).get? = asks s p command :=
    funext fun level => ByLevel.get?_ofFn _ level
  rw [hget]
  exact congrArg some (levelsOf_eq hlevels)

/-- A position's levels, changed by commands that take turns at its lock. -/
def amends (positionId : ℤ) : Resource Held Command Amend Applied Change (Option Levels) where
  isOpen s := ((s.book.positions.get? positionId).map Position.isOpen).getD false
  turn := levelTurn positionId
  take := Held.applyExecutionEvent
  change := Held.change
  value s := levelsHeld s.book positionId
  stated amend := some amend.levels
  edit := Amend.edit
  asks_edit h := Amend.edit_eq (.inl h)
  stands_edit := by
    intro s command amend h
    obtain ⟨p, hposition, -, -, hstands⟩ := levelTurn_request (.inr h)
    rw [← Amend.edit_eq (.inr h), hstands h]
    unfold levelsHeld
    rw [hposition]
    rfl

/-- Whether an answer states the levels `asked` as the newest state of the position's protective
order. -/
def statesAsked (positionId : ℤ) (s : Held) (asked : Levels) (applied : Applied) : Bool :=
  match s.book.positions.get? positionId, applied.event.order? with
  | some p, some order =>
    decide (Handles s.book applied.event order) && order.positionId? = some positionId &&
      order.orderType = .stopLossTakeProfit &&
      match s.env.pricePrecision order.tradeData.symbolId with
      | none => false
      | some precision =>
        if applied.event.executionType = .orderCancelled then
          -- No level is left.
          asked = {} && order.orderId ∉ p.retiredProtectiveIds &&
            (p.protectiveOrderId.isNone || p.protectiveOrderId = some order.orderId)
        else
          statesLevels applied.event order p && !overtaken order p &&
            match VenueBook.levelsOf order precision with
            | .ok stated => stated = asked
            | .error _ => false
  | _, _ => false

/-- An accepted amend is accepted as asked, and nothing else changes the position's levels. -/
def answeredAsAsked (positionId : ℤ) (s : Turns Held Command Amend) :
    Input Command Applied Change → Bool
  | .answer at? (some applied) =>
    match s.lock? at? with
    | some ⟨some (_, amend), _⟩ => statesAsked positionId s.shared amend.levels applied
    | _ => true
  | .event applied =>
    levelsHeld (s.shared.applyExecutionEvent applied).book positionId =
      levelsHeld s.shared.book positionId
  | .change change =>
    levelsHeld (s.shared.change change).book positionId = levelsHeld s.shared.book positionId
  | _ => true

/-- A cancelled protective order leaves the position without levels. -/
theorem protectiveOn_cancelled {env : Env} {ops : Operations} {event : ProtoOAExecutionEvent}
    {order : ProtoOAOrder} {precision : ℕ} {f : Focus}
    (hkind : event.executionType = .orderCancelled)
    (hretired : order.orderId ∉ f.position.retiredProtectiveIds)
    (hcurrent : f.position.protectiveOrderId.isNone ∨
      f.position.protectiveOrderId = some order.orderId) :
    protectiveOn env ops event order precision f =
      protectiveChanged env ops event order f.position.levels
        { f with position := cancelProtective order f.position } := by
  unfold protectiveOn
  dsimp only
  rw [hkind, if_neg (by decide), if_neg (by simpa using hretired), if_neg, if_neg (by decide),
    if_pos rfl]
  rcases hcurrent with hnone | hsome
  · rw [Option.isNone_iff_eq_none] at hnone
    simp [hnone]
  · simp [hsome]

/-- An answer that states the levels asked leaves the book with them. -/
theorem levelsHeld_of_statesAsked {positionId : ℤ} {s : Held} {asked : Levels} {applied : Applied}
    (h : statesAsked positionId s asked applied = true) :
    levelsHeld (s.applyExecutionEvent applied).book positionId = some asked := by
  unfold statesAsked at h
  cases hposition : s.book.positions.get? positionId with
  | none => simp [hposition] at h
  | some p =>
    cases horder : applied.event.order? with
    | none => simp [hposition, horder] at h
    | some order =>
      cases hprecision : s.env.pricePrecision order.tradeData.symbolId with
      | none => simp [hposition, horder, hprecision] at h
      | some precision =>
        simp only [hposition, horder, hprecision, Bool.and_eq_true, decide_eq_true_eq] at h
        obtain ⟨⟨⟨hhandles, hid⟩, htype⟩, hstates⟩ := h
        have hchanged : ∃ q, q.levels = asked ∧
            protectiveOn s.env applied.ops applied.event order precision
                ⟨s.book, p, some positionId⟩ =
              protectiveChanged s.env applied.ops applied.event order p.levels
                ⟨s.book, q, some positionId⟩ := by
          split at hstates
          · rename_i hkind
            simp only [Bool.and_eq_true, Bool.or_eq_true, decide_eq_true_eq] at hstates
            obtain ⟨⟨hnone, hretired⟩, hcurrent⟩ := hstates
            exact ⟨cancelProtective order p, hnone.symm,
              protectiveOn_cancelled hkind hretired hcurrent⟩
          · simp only [Bool.and_eq_true, Bool.not_eq_true'] at hstates
            obtain ⟨⟨hstate, htime⟩, hlevels⟩ := hstates
            cases hstated : VenueBook.levelsOf order precision with
            | error failure => simp [hstated] at hlevels
            | ok stated =>
              simp only [hstated, decide_eq_true_eq] at hlevels
              refine ⟨setProtective order stated p, ?_, protectiveOn_states hstate hstated⟩
              show levelsAfter order stated p = asked
              unfold levelsAfter
              rw [htime, Bool.and_false, Bool.false_and, Bool.false_and, if_neg (by simp)]
              exact hlevels
        obtain ⟨q, hq, hchanged⟩ := hchanged
        obtain ⟨q', records, hok, hheld, hsame⟩ :=
          handle_protective hid hposition htype hprecision hchanged
        obtain ⟨hpositions, -, -⟩ := apply_told hhandles hok
        unfold levelsHeld Held.applyExecutionEvent
        rw [hpositions, hheld]
        exact congrArg some (hsame.levels.trans hq)

/-- An answer that states what was asked leaves the book with it. -/
theorem asAsked_of_answered {positionId : ℤ} {s : Turns Held Command Amend}
    {input : Input Command Applied Change} (h : answeredAsAsked positionId s input = true) :
    Turns.AsAsked (amends positionId) s input := by
  cases input with
  | call command => trivial
  | wake at? => trivial
  | answer at? accepted =>
    cases accepted with
    | none => trivial
    | some applied =>
      intro id amend waiting hlock
      have hstates : statesAsked positionId s.shared amend.levels applied = true := by
        simpa only [answeredAsAsked, hlock] using h
      exact levelsHeld_of_statesAsked hstates
  | event applied =>
    simp only [answeredAsAsked, decide_eq_true_eq] at h
    exact h
  | change change =>
    simp only [answeredAsAsked, decide_eq_true_eq] at h
    exact h

/-! ## The lock of a pending order -/

/-- The request that amends a pending order, and what of it its command asks. -/
structure Modify where
  request : ProtoOAAmendOrderReq
  edit : OrderEdit
deriving DecidableEq

/-- `_amend_pending` from where it holds the lock to where it sends. -/
def orderTurn (asDouble : ℚ → Double) (orderId : ℤ) (s : Held) (command : ModifyOrder) : Turn Modify :=
  match s.book.openOrders.get? orderId with
  | none => .refused
  | some held =>
    match s.env.pricePrecision held.tradeData.symbolId with
    | none => .refused
    | some precision =>
      match amendOrder asDouble precision held command with
      | .error _ => .refused
      | .ok none => .stands ⟨restated held, orderEdit precision held command⟩
      | .ok (some request) => .asks ⟨request, orderEdit precision held command⟩

/-- The request that states a pending order as the book holds it. -/
def orderHeld (b : Book) (orderId : ℤ) : Option ProtoOAAmendOrderReq :=
  (b.openOrders.get? orderId).map restated

/-- What a modify's turn comes to is worked out from the order as it is then. -/
theorem orderTurn_request {asDouble : ℚ → Double} {orderId : ℤ} {s : Held} {command : ModifyOrder} {modify : Modify}
    (h : orderTurn asDouble orderId s command = .asks modify ∨
      orderTurn asDouble orderId s command = .stands modify) :
    ∃ held precision, s.book.openOrders.get? orderId = some held ∧
      modify.edit = orderEdit precision held command ∧
      modify.request = modify.edit.apply asDouble (restated held) ∧
      (orderTurn asDouble orderId s command = .stands modify → modify.request = restated held) := by
  unfold orderTurn at h ⊢
  cases hheld : s.book.openOrders.get? orderId with
  | none => simp [hheld] at h
  | some held =>
    simp only [hheld] at h ⊢
    cases hprecision : s.env.pricePrecision held.tradeData.symbolId with
    | none => simp [hprecision] at h
    | some precision =>
      simp only [hprecision] at h ⊢
      cases hamend : amendOrder asDouble precision held command with
      | error failure => simp [hamend] at h
      | ok request =>
        have hrequest := amendOrder_ok hamend
        cases request with
        | none =>
          have hmodify : ⟨restated held, orderEdit precision held command⟩ = modify := by
            simpa [hamend] using h
          rw [← hmodify]
          exact ⟨held, precision, rfl, rfl, hrequest, fun _ => rfl⟩
        | some request =>
          have hmodify : ⟨request, orderEdit precision held command⟩ = modify := by
            simpa [hamend] using h
          rw [← hmodify]
          exact ⟨held, precision, rfl, rfl, hrequest, fun hstands => by simp at hstands⟩

/-- A modify's request states the order as held but for what its command changes. -/
theorem Modify.request_eq {asDouble : ℚ → Double} {orderId : ℤ} {s : Held} {command : ModifyOrder}
    {modify : Modify}
    (h : orderTurn asDouble orderId s command = .asks modify ∨
      orderTurn asDouble orderId s command = .stands modify) :
    some modify.request = (orderHeld s.book orderId).map (modify.edit.apply asDouble) := by
  obtain ⟨held, precision, hheld, -, hrequest, -⟩ := orderTurn_request h
  unfold orderHeld
  rw [hheld]
  exact congrArg some hrequest

/-- A pending order, changed by modifies that take turns at its lock. -/
def modifies (asDouble : ℚ → Double) (orderId : ℤ) :
    Resource Held ModifyOrder Modify Applied Change (Option ProtoOAAmendOrderReq) where
  isOpen s := (s.book.openOrders.get? orderId).isSome
  turn := orderTurn asDouble orderId
  take := Held.applyExecutionEvent
  change := Held.change
  value s := orderHeld s.book orderId
  stated modify := some modify.request
  edit modify order := order.map (modify.edit.apply asDouble)
  asks_edit h := Modify.request_eq (.inl h)
  stands_edit := by
    intro s command modify h
    obtain ⟨held, precision, hheld, -, -, hstands⟩ := orderTurn_request (.inr h)
    rw [← Modify.request_eq (.inr h), hstands h]
    unfold orderHeld
    rw [hheld]
    rfl

/-- Whether the book takes an order's event for one of an order that is not the node's. -/
def reachesExternal (ops : Operations) (b : Book) (event : ProtoOAExecutionEvent)
    (order : ProtoOAOrder) : Bool :=
  let f := positionFor b event order
  if order.closingOrder then (matchClosing ops event order (sync event order f)).2.isNone
  else
    let p := (opened event order (takesEntry event order f.position) f).focus.position
    order.orderId ∉ b.endedEntries && !(p.ours && p.entryOrderId = some order.orderId)

/-- Whether an answer states the pending order `asked` for, as its newest state. -/
def statesAmended (orderId : ℤ) (s : Held) (asked : ProtoOAAmendOrderReq) (applied : Applied) :
    Bool :=
  match s.book.openOrders.get? orderId, applied.event.order? with
  | some held, some order =>
    decide (Handles s.book applied.event order) && applied.event.executionType = .orderReplaced &&
      order.orderId = orderId && isPending order.orderType &&
      (s.env.pricePrecision order.tradeData.symbolId).isSome &&
      reachesExternal applied.ops s.book applied.event order &&
      held.utcLastUpdateTimestamp ≤ order.utcLastUpdateTimestamp && restated order = asked
  | _, _ => false

/-- An accepted modify is accepted as asked, and nothing else changes the pending order. -/
def modifiedAsAsked (orderId : ℤ) (s : Turns Held ModifyOrder Modify) :
    Input ModifyOrder Applied Change → Bool
  | .answer at? (some applied) =>
    match s.lock? at? with
    | some ⟨some (_, modify), _⟩ => statesAmended orderId s.shared modify.request applied
    | _ => true
  | .event applied =>
    orderHeld (s.shared.applyExecutionEvent applied).book orderId = orderHeld s.shared.book orderId
  | .change change =>
    orderHeld (s.shared.change change).book orderId = orderHeld s.shared.book orderId
  | _ => true

/-- A handler that goes on leaves the open orders if what follows does. -/
theorem andThen_openOrders {h : Handled} {next : Focus → Handled}
    (hnext : ∀ f, (next f).focus.book.openOrders = f.book.openOrders) :
    (h.andThen next).focus.book.openOrders = h.focus.book.openOrders := by
  unfold Handled.andThen
  split
  · rfl
  · exact hnext h.focus

/-- The end of a position leaves the open orders. -/
theorem endIfClosed_openOrders (event : ProtoOAExecutionEvent) (asked : Bool) (f : Focus) :
    (endIfClosed event asked f).focus.book.openOrders = f.book.openOrders := by
  unfold endIfClosed
  split <;> rfl

/-- Putting the position back leaves them. -/
theorem finish_openOrders (f : Focus) : f.finish.openOrders = f.book.openOrders := by
  unfold Focus.finish
  split <;> rfl

/-- Marking the event leaves them. -/
theorem markApplied_openOrders (event : ProtoOAExecutionEvent) (order : ProtoOAOrder) (b : Book) :
    (markApplied event order b).openOrders = b.openOrders := by
  unfold markApplied releaseKeep markDeal
  dsimp only
  repeat' split
  all_goals rfl

/-- Finding the position leaves them. -/
theorem positionFor_openOrders (b : Book) (event : ProtoOAExecutionEvent) (order : ProtoOAOrder) :
    (positionFor b event order).book.openOrders = b.openOrders := by
  unfold positionFor
  split
  · rfl
  · split <;> rfl

section Replaced

variable {env : Env} {ops : Operations} {b : Book} {event : ProtoOAExecutionEvent}
  {order held : ProtoOAOrder}

/-- A replaced order's news do not move what the book holds. -/
theorem sync_replaced (hkind : event.executionType = .orderReplaced) (f : Focus) :
    (sync event order f).book = f.book := by
  unfold sync
  split
  · rfl
  · split
    · rfl
    · rw [hkind]
      exact congrArg Focus.book (if_pos rfl)

/-- The newer state of a pending order is kept. -/
theorem externalEvent_replaced (hkind : event.executionType = .orderReplaced)
    (hpending : isPending order.orderType = true) {f : Focus}
    (hheld : f.book.openOrders.get? order.orderId = some held)
    (hnewer : held.utcLastUpdateTimestamp ≤ order.utcLastUpdateTimestamp) (precision : ℕ)
    (reduceOnly : Bool) :
    (externalEvent env event order precision reduceOnly f).focus.book.openOrders =
      f.book.openOrders.set order.orderId order := by
  have hkept : ∀ known, keepOpenOrder event order known f.book =
      ({ f.book with openOrders := f.book.openOrders.set order.orderId order }, true) := by
    intro known
    unfold keepOpenOrder
    dsimp only
    rw [hpending, hkind, if_neg (by simp), if_neg (by decide), if_neg (by simp), if_pos (by simp),
      hheld]
    exact if_pos hnewer
  unfold externalEvent
  dsimp only
  rw [hkept, hkind, if_neg (by decide), if_neg (by decide)]
  split
  · rfl
  · rw [if_pos rfl]
    split
    · rfl
    · split <;> rfl

/-- Matching a close leaves the open orders. -/
theorem matchClosing_openOrders (f : Focus) :
    (matchClosing ops event order f).1.book.openOrders = f.book.openOrders := by
  unfold matchClosing
  split
  · rfl
  · split
    · split
      · split <;> rfl
      · rfl
    · rfl

/-- A replaced closing order of nobody's is held as it is now. -/
theorem closingOn_replaced (hkind : event.executionType = .orderReplaced)
    (hpending : isPending order.orderType = true) {f : Focus}
    (hheld : f.book.openOrders.get? order.orderId = some held)
    (hnewer : held.utcLastUpdateTimestamp ≤ order.utcLastUpdateTimestamp)
    (hunmatched : (matchClosing ops event order (sync event order f)).2 = none) (precision : ℕ) :
    (closingOn env ops event order precision f).focus.book.openOrders =
      f.book.openOrders.set order.orderId order := by
  have hbook : (matchClosing ops event order (sync event order f)).1.book.openOrders =
      f.book.openOrders := by
    rw [matchClosing_openOrders, sync_replaced hkind]
  unfold closingOn
  dsimp only
  rw [andThen_openOrders fun f => endIfClosed_openOrders event _ f]
  show (closingRecords env event order precision _ _).focus.book.openOrders = _
  unfold closingRecords
  rw [hunmatched]
  dsimp only
  rw [andThen_openOrders fun f => rfl]
  rw [← hbook] at hheld ⊢
  exact externalEvent_replaced hkind hpending hheld hnewer precision true

/-- Opening a position leaves the open orders. -/
theorem opened_openOrders (hkind : event.executionType = .orderReplaced) (learnt : Bool) (f : Focus) :
    (opened event order learnt f).focus.book.openOrders = f.book.openOrders := by
  unfold opened
  show (sync event order _).book.openOrders = _
  rw [sync_replaced hkind]

/-- A replaced opening order of nobody's is held as it is now. -/
theorem openingOn_replaced (hkind : event.executionType = .orderReplaced)
    (hpending : isPending order.orderType = true) {f : Focus}
    (hheld : f.book.openOrders.get? order.orderId = some held)
    (hnewer : held.utcLastUpdateTimestamp ≤ order.utcLastUpdateTimestamp)
    (hforeign : ((opened event order (takesEntry event order f.position) f).focus.position.ours &&
      (opened event order (takesEntry event order f.position) f).focus.position.entryOrderId =
        some order.orderId) = false) (precision : ℕ) :
    (openingOn env event order precision f).focus.book.openOrders =
      f.book.openOrders.set order.orderId order := by
  have hbook : (opened event order (takesEntry event order f.position) f).focus.book.openOrders =
      f.book.openOrders := opened_openOrders hkind _ f
  have htail : ∀ f, (openedTail event order f).focus.book.openOrders = f.book.openOrders := by
    intro f
    unfold openedTail
    exact endIfClosed_openOrders event _ f
  unfold openingOn
  dsimp only
  rw [andThen_openOrders htail]
  show (openingRecords env event order precision _
    (opened event order (takesEntry event order f.position) f).focus).focus.book.openOrders = _
  unfold openingRecords
  rw [hforeign, if_neg Bool.false_ne_true]
  unfold openedExternal
  rw [andThen_openOrders fun f => rfl]
  rw [← hbook] at hheld ⊢
  exact externalEvent_replaced hkind hpending hheld hnewer precision false

/-- The book that has applied the newer state of a pending order holds it. -/
theorem openOrders_of_replaced (hhandles : Handles b event order)
    (hkind : event.executionType = .orderReplaced) (hpending : isPending order.orderType = true)
    (hloaded : (env.pricePrecision order.tradeData.symbolId).isSome = true)
    (hexternal : reachesExternal ops b event order = true)
    (hheld : b.openOrders.get? order.orderId = some held)
    (hnewer : held.utcLastUpdateTimestamp ≤ order.utcLastUpdateTimestamp) :
    (apply env ops b event).1.openOrders = b.openOrders.set order.orderId order := by
  obtain ⟨precision, hprecision⟩ := Option.isSome_iff_exists.mp hloaded
  have htype : order.orderType ≠ .stopLossTakeProfit := by
    rintro htype
    rw [htype] at hpending
    cases hpending
  have hfor := positionFor_openOrders b event order
  rw [← hfor] at hheld
  have hloaded : (handleLoaded env ops b event order precision).focus.book.openOrders =
      b.openOrders.set order.orderId order := by
    unfold handleLoaded
    dsimp only
    rw [if_neg htype, ← hfor]
    unfold reachesExternal at hexternal
    dsimp only at hexternal
    by_cases hclosing : order.closingOrder = true
    · rw [if_pos hclosing] at hexternal ⊢
      exact closingOn_replaced hkind hpending hheld hnewer
        (Option.isNone_iff_eq_none.mp hexternal) precision
    · rw [if_neg hclosing] at hexternal ⊢
      rw [Bool.and_eq_true, decide_eq_true_eq, Bool.not_eq_true'] at hexternal
      rw [if_neg fun hended => hexternal.1 hended.1]
      exact openingOn_replaced hkind hpending hheld hnewer hexternal.2 precision
  have hhandled : (handle env ops b event order).1.openOrders =
      b.openOrders.set order.orderId order := by
    unfold handle
    rw [hprecision]
    exact (finish_openOrders _).trans hloaded
  rw [apply_of_handles hhandles]
  split
  · exact hhandled
  · exact (markApplied_openOrders event order _).trans hhandled

end Replaced

/-- An answer that states the order asked for leaves the book with it. -/
theorem orderHeld_of_statesAmended {orderId : ℤ} {s : Held} {asked : ProtoOAAmendOrderReq}
    {applied : Applied} (h : statesAmended orderId s asked applied = true) :
    orderHeld (s.applyExecutionEvent applied).book orderId = some asked := by
  unfold statesAmended at h
  cases hheld : s.book.openOrders.get? orderId with
  | none => simp [hheld] at h
  | some held =>
    cases horder : applied.event.order? with
    | none => simp [hheld, horder] at h
    | some order =>
      simp only [hheld, horder, Bool.and_eq_true, decide_eq_true_eq] at h
      obtain ⟨⟨⟨⟨⟨⟨⟨hhandles, hkind⟩, rfl⟩, hpending⟩, hloaded⟩, hexternal⟩, hnewer⟩, hasked⟩ := h
      unfold orderHeld Held.applyExecutionEvent
      rw [openOrders_of_replaced hhandles hkind hpending hloaded hexternal hheld hnewer,
        Dict.get?_set_self]
      exact congrArg some hasked

/-- An answer as asked leaves the order as asked. -/
theorem asAsked_of_modified {asDouble : ℚ → Double} {orderId : ℤ} {s : Turns Held ModifyOrder Modify}
    {input : Input ModifyOrder Applied Change} (h : modifiedAsAsked orderId s input = true) :
    Turns.AsAsked (modifies asDouble orderId) s input := by
  cases input with
  | call command => trivial
  | wake at? => trivial
  | answer at? accepted =>
    cases accepted with
    | none => trivial
    | some applied =>
      intro id modify waiting hlock
      have hstates : statesAmended orderId s.shared modify.request applied = true := by
        simpa only [modifiedAsAsked, hlock] using h
      exact orderHeld_of_statesAmended hstates
  | event applied =>
    simp only [modifiedAsAsked, decide_eq_true_eq] at h
    exact h
  | change change =>
    simp only [modifiedAsAsked, decide_eq_true_eq] at h
    exact h

/-! ## No update is lost -/

/-- An amend states the double of each level its command does not name as the book holds it. -/
def restatesLevels (asDouble : ℚ → Double) (positionId : ℤ) (s : Held) (command : Command)
    (amend : Amend) : Prop :=
  ∃ p, s.book.positions.get? positionId = some p ∧ ∀ level, names s command level = false →
    statedLevel (amend.request asDouble positionId) level = (p.levels.get? level).map asDouble

/-- A modify states what its command does not name as the book holds the order. -/
structure RestatesOrder (orderId : ℤ) (s : Held) (command : ModifyOrder) (modify : Modify) : Prop where
  attached : ∃ held, s.book.openOrders.get? orderId = some held ∧
    modify.request = { restated held with
      volume := modify.request.volume
      limitPrice? := modify.request.limitPrice?
      stopPrice? := modify.request.stopPrice? }
  volume : command.quantity = none →
    (orderHeld s.book orderId).map (·.volume) = some modify.request.volume
  limit : command.price = none →
    (orderHeld s.book orderId).map (·.limitPrice?) = some modify.request.limitPrice?
  stop : command.triggerPrice = none →
    (orderHeld s.book orderId).map (·.stopPrice?) = some modify.request.stopPrice?

/-- An amend states the levels anew that its command does not name. -/
theorem restatesLevels_of_turn {asDouble : ℚ → Double} {positionId : ℤ} {s : Held} {command : Command} {amend : Amend}
    (h : levelTurn positionId s command = .asks amend) :
    restatesLevels asDouble positionId s command amend := by
  obtain ⟨p, hposition, hlevels, -⟩ := levelTurn_request (.inl h)
  refine ⟨p, hposition, fun level hunnamed => ?_⟩
  unfold Amend.request
  rw [statedLevel_amendLevels, levelsOf_eq hlevels]
  unfold editLevels
  rw [ByLevel.get?_ofFn, asks_unnamed hunnamed]
  rfl

/-- A modify states the rest of its order anew. -/
theorem restatesOrder_of_turn {asDouble : ℚ → Double} {orderId : ℤ} {s : Held}
    {command : ModifyOrder} {modify : Modify} (h : orderTurn asDouble orderId s command = .asks modify) : RestatesOrder orderId s command modify := by
  obtain ⟨held, precision, hheld, hedit, hrequest, -⟩ := orderTurn_request (.inl h)
  have horder : orderHeld s.book orderId = some (restated held) := by
    unfold orderHeld
    rw [hheld]
    rfl
  refine ⟨⟨held, hheld, ?_⟩, fun hnone => ?_, fun hnone => ?_, fun hnone => ?_⟩
  · conv_lhs => rw [hrequest]
    unfold OrderEdit.apply
    rw [hrequest]
    rfl
  · rw [horder, hrequest, hedit]
    simp [OrderEdit.apply, orderEdit, hnone]
  · rw [horder, hrequest, hedit]
    simp [OrderEdit.apply, orderEdit, hnone, editedPrice]
  · rw [horder, hrequest, hedit]
    simp [OrderEdit.apply, orderEdit, hnone, editedPrice]

/-- Where no lock is let go that a command waits for, the amends of a position and the modifies of a
pending order lose no update. -/
theorem amends_lose_none (asDouble : ℚ → Double) (start : Held) (positionId orderId : ℤ)
    {inputs : List (Input Command Applied Change)}
    {modifications : List (Input ModifyOrder Applied Change)}
    (hamends : (Turns.machine (amends positionId)).Always (Turns.Keeps (amends positionId))
      { shared := start } inputs)
    (hmodifies : (Turns.machine (modifies asDouble orderId)).Always
      (Turns.Keeps (modifies asDouble orderId)) { shared := start } modifications) :
    Turns.LosesNone (amends positionId) (restatesLevels asDouble positionId)
        (fun s input => answeredAsAsked positionId s input = true) start inputs ∧
      Turns.LosesNone (modifies asDouble orderId) (RestatesOrder orderId)
        (fun s input => modifiedAsAsked orderId s input = true) start modifications :=
  ⟨Turns.losesNone restatesLevels_of_turn (fun _ _ => asAsked_of_answered) start hamends,
    Turns.losesNone restatesOrder_of_turn (fun _ _ => asAsked_of_modified) start hmodifies⟩

/-! ## Two runs -/

/-- A trader's pending order, at `ts` with its limit price. -/
def samplePending (ts : ℤ) (price : ℚ) : ProtoOAOrder where
  orderId := 4
  tradeData := { symbolId := 1, volume := 1000, tradeSide := .buy, openTimestamp? := some 200 }
  orderType := .limit
  positionId? := some 11
  utcLastUpdateTimestamp? := some ts
  limitPrice? := some (.finite price)
  relativeStopLoss? := some 500000

/-- The node's position 10 with both levels, and the pending order. -/
def sampleHeld : Held where
  env := Sample.env
  book := VenueBook.machine.after {} [
    .apply Sample.env {} (Sample.entryFill Sample.nodeEntry),
    .apply Sample.env {}
      (Sample.protectiveEvent .orderAccepted 200 (some (.finite 90)) (some (.finite 120))),
    .apply Sample.env {} { executionType := .orderAccepted, order? := some (samplePending 200 95) }]

/-- The answer that the protective order stands at two levels, with no state of the position. -/
def levelsAnswer (ts : ℤ) (stop target : ℚ) : Applied where
  ops := {}
  event := {
    executionType := .orderReplaced
    order? := some (Sample.protective ts (some (.finite stop)) (some (.finite target))) }

/-- A closing order's event with the position's status. -/
def statusEvent (kind : ProtoOAExecutionType) (ts : ℤ) (status : ProtoOAPositionStatus) : Applied where
  ops := {}
  event := Sample.event kind Sample.closing (Sample.position ts status)

def moveStop (price : ℚ) : Command := .legs {} { stopLoss := some ("O-2", price) }

def moveTarget (price : ℚ) : Command := .legs {} { takeProfit := some ("O-3", price) }

/-- Two moves of the stop-loss and one of the take-profit, each asked for before the one before it is
answered. -/
def threeMoves : List (Input Command Applied Change) :=
  [.call (moveStop 91), .call (moveTarget 121), .call (moveStop 92),
    .answer none (some (levelsAnswer 400 91 120)), .wake none,
    .answer none (some (levelsAnswer 410 91 121)), .wake none,
    .answer none (some (levelsAnswer 420 92 121))]

/-- Two modifies of the pending order, the second asked for before the first is answered. -/
def twoModifies : List (Input ModifyOrder Applied Change) :=
  [.call { price := some 96 }, .call { quantity := some 5 },
    .answer none (some {
      ops := {}
      event := { executionType := .orderReplaced, order? := some (samplePending 300 96) } }),
    .wake none, .answer none none]

/-- Three moves of one position and two modifies of one order. -/
theorem amends_lose_none_moves :
    Turns.LosesNone (amends 10) (restatesLevels .finite 10)
        (fun s input => answeredAsAsked 10 s input = true) sampleHeld threeMoves ∧
      Turns.LosesNone (modifies .finite 4) (RestatesOrder 4)
        (fun s input => modifiedAsAsked 4 s input = true) sampleHeld twoModifies :=
  amends_lose_none .finite sampleHeld 10 4 (by decide +kernel) (by decide +kernel)

/-- The position reads as not open while the second move waits; the first is answered, an event of
another kind lets the lock go before the second runs, and the position reads as open again. A third
move finds a lock of its own. -/
def movesApart : List (Input Command Applied Change) :=
  [.call (moveStop 91), .call (moveTarget 121), .event (statusEvent .orderAccepted 300 .error),
    .answer none (some (levelsAnswer 305 91 120)),
    .event { ops := {}, event := { executionType := .swap } },
    .event (statusEvent .orderCancelled 310 .open), .wake (some 0), .call (moveStop 92),
    .answer (some 0) (some (levelsAnswer 400 91 121)),
    .answer none (some (levelsAnswer 410 92 120))]

/-- The third move is worked out before the second is answered, and takes the take-profit back. -/
theorem update_lost :
    ¬ Turns.LosesNone (amends 10) (restatesLevels .finite 10)
      (fun s input => answeredAsAsked 10 s input = true) sampleHeld movesApart := by
  intro h
  have hserial := h.serial (by decide +kernel)
  revert hserial
  decide +kernel

end Execution

end NautilusCtrader
