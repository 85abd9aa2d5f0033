import NautilusCtrader.Common.Raising
import NautilusCtrader.VenueBook.LegState
import NautilusCtrader.VenueBook.Runs

/-!
# Loading the same again

`load` merges a snapshot with what the book held: legs it holds ended or accepted no longer wait, and open
positions the snapshot lacks are kept. A second load of the same input finds the first one's result, and
leaves it as it is (`load_again`), as long as no leg that still waits is named both at a level the snapshot
has and at one it lacks; the first load accepts such a leg in one place, and the second lets it wait in none
(`load_again_ambiguous`).
-/

namespace NautilusCtrader

open Common OrderRecord

namespace VenueBook

/-! ## The legs a load gives a listed position -/

/-- The leg ids that the record on a position's entry names. -/
def namedLegs (orders : List ProtoOAOrder) : ByLevel String :=
  match entryOf orders with
  | none => {}
  | some entry =>
    match parseLabel entry.tradeData.label with
    | none => {}
    | some _ =>
      match parseComment entry.tradeData.comment with
      | none => {}
      | some ids => ⟨ids.stopLoss, ids.takeProfit⟩

/-- What a load gives the legs named: a leg lives while its level does, or while it waits for it. -/
def LegsOf (waiting : Finset String) (named : ByLevel String) (levels : Levels) (legs : ByLevel Leg) :
    Prop :=
  ∀ level, (legs.get? level).map (fun leg => (leg.clientOrderId, leg.alive, leg.accepted)) =
    (named.get? level).map fun id =>
      (id, (levels.get? level).isSome || decide (id ∈ waiting), (levels.get? level).isSome)

/-- A restored leg is accepted while its level stands, and lives then or while its id waits. -/
theorem adoptedLeg_restored (p : Position) (waiting : Finset String) (level : Level) (id : String) :
    let leg := adoptedLeg p true waiting level id
    (leg.clientOrderId, leg.alive, leg.accepted) =
      (id, (p.levels.get? level).isSome || decide (id ∈ waiting), (p.levels.get? level).isSome) := by
  dsimp only
  unfold adoptedLeg
  rw [if_neg (by simp)]
  by_cases hlevel : (p.levels.get? level).isSome = true
  · rw [if_pos hlevel, hlevel, Bool.true_or]
  · rw [if_neg hlevel, Bool.eq_false_of_not_eq_true hlevel, Bool.false_or]

variable {waiting waiting' : Finset String} {orders : List ProtoOAOrder} {levels : Levels} {p : Position}

/-- Restoring an entry makes the legs its orders name. -/
theorem legs_adopt (p : Position) (waiting : Finset String) (hp : p.legs = {}) {entry : ProtoOAOrder}
    (hentry : entryOf orders = some entry) (level : Level) : (adopt p entry true waiting).1.legs.get? level =
      ((namedLegs orders).get? level).map (adoptedLeg p true waiting level) := by
  unfold adopt namedLegs
  rw [hentry]
  dsimp only
  cases parseLabel entry.tradeData.label with
  | none =>
    dsimp only
    rw [hp]
    cases level with
    | stopLoss => rfl
    | takeProfit => rfl
  | some entryId =>
    dsimp only
    cases parseComment entry.tradeData.comment with
    | none =>
      dsimp only
      rw [hp]
      cases level with
      | stopLoss => rfl
      | takeProfit => rfl
    | some ids =>
      dsimp only
      rw [hp]
      obtain ⟨stopLoss, takeProfit⟩ := ids
      cases level with
      | stopLoss =>
        cases stopLoss with
        | none => cases takeProfit <;> rfl
        | some id => cases takeProfit <;> rfl
      | takeProfit =>
        cases takeProfit with
        | none => cases stopLoss <;> rfl
        | some id => cases stopLoss <;> rfl

/-- A restored position holds the named legs, under the levels it has. -/
theorem legs_restorePosition (hp : p.legs = {}) :
    LegsOf waiting (namedLegs orders) levels (restorePosition waiting orders levels p).1.legs := by
  have hlegs (adopted : Position × List Record) : (if waits adopted.1 then
      ({ adopted.1 with awaitingProtection := true },
        adopted.2 ++ [.awaitProtection adopted.1.positionId])
      else adopted).1.legs = adopted.1.legs := by
    split
    · rfl
    · rfl
  intro level
  unfold restorePosition
  dsimp only
  rw [hlegs]
  split
  · rename_i hentry
    rw [hp]
    unfold namedLegs
    rw [hentry]
    cases level with
    | stopLoss => rfl
    | takeProfit => rfl
  · rename_i entry hentry
    have hadopted := legs_adopt { p with levels } waiting hp hentry level
    rw [hadopted, Option.map_map]
    apply congrArg fun f => Option.map f _
    funext id
    exact adoptedLeg_restored { p with levels } waiting level id

/-- Only a leg whose level is not there asks whether it waits. -/
theorem restorePosition_congr (h : ∀ level id, (namedLegs orders).get? level = some id →
    (levels.get? level).isSome = false → (id ∈ waiting ↔ id ∈ waiting')) :
    restorePosition waiting orders levels p = restorePosition waiting' orders levels p := by
  unfold restorePosition
  cases hentry : entryOf orders with
  | none => rfl
  | some entry =>
    have hleg (q : Position) (hq : q.levels = levels) (level : Level) (id : String)
        (hnamed : (namedLegs orders).get? level = some id) :
        adoptedLeg q true waiting level id = adoptedLeg q true waiting' level id := by
      unfold adoptedLeg
      rw [hq]
      by_cases hlevel : (levels.get? level).isSome = true
      · rw [if_pos hlevel, if_pos hlevel]
      · rw [if_neg hlevel, if_neg hlevel,
          decide_eq_decide.mpr (h level id hnamed (Bool.eq_false_of_not_eq_true hlevel))]
    have hadopt : adopt { p with levels } entry true waiting =
        adopt { p with levels } entry true waiting' := by
      unfold namedLegs at hleg
      rw [hentry] at hleg
      unfold adopt
      dsimp only at hleg ⊢
      cases hlabel : parseLabel entry.tradeData.label with
      | none => rfl
      | some entryId =>
        rw [hlabel] at hleg
        dsimp only at hleg ⊢
        cases hcomment : parseComment entry.tradeData.comment with
        | none => rfl
        | some ids =>
          rw [hcomment] at hleg
          dsimp only at hleg ⊢
          obtain ⟨stopLoss, takeProfit⟩ := ids
          have hset := hleg { p with
            levels, entryOrderId := some entry.orderId, entryClientOrderId := some entryId
            entryAccepted := true } rfl
          -- the comment names a leg for either level, for both or for none
          cases stopLoss with
          | none =>
            cases takeProfit with
            | none => rfl
            | some target => simp only [hset .takeProfit target rfl]
          | some stop =>
            cases takeProfit with
            | none => simp only [hset .stopLoss stop rfl]
            | some target => simp only [hset .stopLoss stop rfl, hset .takeProfit target rfl]
    dsimp only
    rw [hadopt]

/-! ## The positions a load builds -/

/-- A position as a load builds it from one of the snapshot's, by what stands of its legs. -/
def Restored (env : Env) (waiting : Finset String) (orders : ℤ → List ProtoOAOrder)
    (states : List ProtoOAPosition) (x : ℤ) (p : Position) : Prop :=
  ∃ state ∈ states, state.positionId = x ∧ ∃ levels, listedLevels env state = .ok levels ∧
    LegsOf waiting (namedLegs (orders x)) levels p.legs

/-- Every position of a dictionary is one the load built, and every position listed is there. -/
structure AllRestored (env : Env) (waiting : Finset String) (orders : ℤ → List ProtoOAOrder)
    (states : List ProtoOAPosition) (positions : Dict ℤ Position) : Prop where
  restored : ∀ x p, positions.get? x = some p → Restored env waiting orders states x p
  listed : ∀ state ∈ states, ∃ p, positions.get? state.positionId = some p

variable {env : Env} {listOf : ℤ → List ProtoOAOrder} {states : List ProtoOAPosition}
  {positions : Dict ℤ Position}

/-- Loading the positions changes nothing else of the book. -/
theorem loadPositions_same (env : Env) (waiting : Finset String) (listOf : ℤ → List ProtoOAOrder)
    (states : List ProtoOAPosition) (b : Book) : (loadPositions env waiting listOf states b).1 =
      { b with positions := (loadPositions env waiting listOf states b).1.positions } := by
  induction states generalizing b with
  | nil => rfl
  | cons state rest ih =>
    unfold loadPositions
    dsimp only
    split
    · rfl
    · rw [ih]

/-- Two sets of waiting ids that restore each position alike load alike. -/
theorem loadPositions_congr (h : ∀ state ∈ states, ∀ levels, listedLevels env state = .ok levels →
      restorePosition waiting (listOf state.positionId) levels (listedPosition state) =
        restorePosition waiting' (listOf state.positionId) levels (listedPosition state)) (b : Book) :
    loadPositions env waiting listOf states b = loadPositions env waiting' listOf states b := by
  induction states generalizing b with
  | nil => rfl
  | cons state rest ih =>
    unfold loadPositions
    dsimp only
    cases hlevels : listedLevels env state with
    | error failure => rfl
    | ok levels =>
      dsimp only
      rw [h state List.mem_cons_self levels hlevels]
      rw [ih fun other hother => h other (List.mem_cons_of_mem _ hother)]

/-- The loop over the snapshot's positions, by induction on those left, `all` being all of them. -/
theorem restored_loadPositions {all : List ProtoOAPosition} (hall : ∀ state ∈ states, state ∈ all)
    {b : Book} {notices : List Record}
    (hok : (loadPositions env waiting listOf states b).2 = .ok notices)
    (hb : ∀ x p, b.positions.get? x = some p → Restored env waiting listOf all x p) :
    (∀ x p, (loadPositions env waiting listOf states b).1.positions.get? x = some p →
        Restored env waiting listOf all x p) ∧
      ∀ x, (x ∈ states.map ProtoOAPosition.positionId ∨ b.positions.contains x = true) →
        (loadPositions env waiting listOf states b).1.positions.contains x = true := by
  induction states generalizing b notices with
  | nil =>
    refine ⟨hb, fun x hx => ?_⟩
    rcases hx with hx | hx
    · simp at hx
    · exact hx
  | cons state rest ih =>
    unfold loadPositions at hok ⊢
    dsimp only at hok ⊢
    cases hlevels : listedLevels env state with
    | error failure =>
      rw [hlevels] at hok
      cases hok
    | ok levels =>
      rw [hlevels] at hok
      dsimp only at hok ⊢
      generalize hp : restorePosition waiting (listOf state.positionId) levels (listedPosition state) =
        restored at hok ⊢
      have hlegs : LegsOf waiting (namedLegs (listOf state.positionId)) levels restored.1.legs := by
        rw [← hp]
        exact legs_restorePosition rfl
      obtain ⟨later, hlater⟩ := exists_of_map hok
      have hput : ∀ x p, (b.positions.set state.positionId restored.1).get? x = some p →
          Restored env waiting listOf all x p :=
        Dict.forall_set hb ⟨state, hall state List.mem_cons_self, rfl, levels, hlevels, hlegs⟩
      obtain ⟨hrestored, hcontains⟩ :=
        ih (fun other hother => hall other (List.mem_cons_of_mem _ hother)) hlater hput
      refine ⟨hrestored, fun x hx => hcontains x ?_⟩
      rw [List.map_cons, List.mem_cons] at hx
      -- this state's own position, one put before it, or one of the states left
      rcases hx with (rfl | hx) | hx
      · right
        simp [Dict.contains]
      · exact .inl hx
      · right
        rw [Dict.contains] at hx ⊢
        rw [Dict.get?_set]
        split
        · rfl
        · exact hx

/-- A change of the positions that leaves what stands of their legs. -/
theorem AllRestored.change {positions' : Dict ℤ Position}
    (h : AllRestored env waiting listOf states positions)
    (hback : ∀ x p, positions'.get? x = some p → ∃ q, positions.get? x = some q ∧
      ∀ level, (p.legs.get? level).map (fun leg => (leg.clientOrderId, leg.alive, leg.accepted)) =
        (q.legs.get? level).map fun leg => (leg.clientOrderId, leg.alive, leg.accepted))
    (hforth : ∀ x q, positions.get? x = some q → ∃ p, positions'.get? x = some p) :
    AllRestored env waiting listOf states positions' := by
  constructor
  · intro x p hget
    obtain ⟨q, hq, hlegs⟩ := hback x p hget
    obtain ⟨state, hin, hid, levels, hlevels, hof⟩ := h.restored x q hq
    exact ⟨state, hin, hid, levels, hlevels, fun level => (hlegs level).trans (hof level)⟩
  · intro state hin
    obtain ⟨q, hq⟩ := h.listed state hin
    exact hforth _ q hq

/-- Listing a protective order leaves who each leg is and how it stands. -/
theorem legs_listProtective (order : ProtoOAOrder) (p : Position) (level : Level) :
    ((listProtective order p).legs.get? level).map
        (fun leg => (leg.clientOrderId, leg.alive, leg.accepted)) =
      (p.legs.get? level).map fun leg => (leg.clientOrderId, leg.alive, leg.accepted) := by
  have hsized : (listProtective order p).legs.get? level = (p.legs.get? level).map fun leg =>
      if leg.accepted then { leg with quantity := remainingOf order } else leg := by
    cases level with
    | stopLoss => rfl
    | takeProfit => rfl
  rw [hsized, Option.map_map]
  apply congrArg fun f => Option.map f (p.legs.get? level)
  funext leg
  by_cases haccepted : leg.accepted = true
  · simp [haccepted]
  · simp [haccepted]

/-- Loading an order leaves every position restored. -/
theorem AllRestored.loadOrder {b : Book} (h : AllRestored env waiting listOf states b.positions)
    (order : ProtoOAOrder) : AllRestored env waiting listOf states (loadOrder env b order).positions := by
  unfold VenueBook.loadOrder
  split
  · split
    · exact h
    · rename_i p hp
      apply h.change
      · intro x q hq
        rcases Dict.get?_set_eq_some.mp hq with ⟨rfl, rfl⟩ | ⟨-, hold⟩
        · exact ⟨p, hp, legs_listProtective order p⟩
        · exact ⟨q, hold, fun _ => rfl⟩
      · intro x q hq
        rw [Dict.get?_set]
        split
        · exact ⟨_, rfl⟩
        · exact ⟨q, hq⟩
  · dsimp only
    split
    · exact h
    · split
      · exact h
      · exact h

/-- So does loading them all. -/
theorem AllRestored.loadOrders {b : Book} (h : AllRestored env waiting listOf states b.positions)
    (orders : List ProtoOAOrder) :
    AllRestored env waiting listOf states (orders.foldl (VenueBook.loadOrder env) b).positions := by
  induction orders generalizing b with
  | nil => exact h
  | cons order rest ih => exact ih (h.loadOrder order)

/-- Opening foreign legs leaves the node's own. -/
theorem legs_openLegs (heldClosed : Finset String) (p : Position) :
    (ForeignLegs.openLegs heldClosed p).1.legs = p.legs := by
  unfold ForeignLegs.openLegs
  split
  · unfold ForeignLegs.entryUnknown
    split
    · rfl
    · rfl
  · rename_i entryOrderId hentry
    have hlevel (q : Position) (level : Level) :
        (if (q.levels.get? level).isSome &&
            !((q.foreignLegs.get? level).map ForeignLeg.alive).getD false then
          ({ q with
              foreignLegs :=
                q.foreignLegs.set level (ForeignLegs.openLeg heldClosed entryOrderId q level) },
            ([] : List Record))
        else (q, [])).1.legs = q.legs := by
      split
      · rfl
      · rfl
    exact (hlevel _ .takeProfit).trans (hlevel p .stopLoss)

/-- So does loading them. -/
theorem legs_loadForeignLegs (heldClosed : Finset String) (p : Position) :
    (loadForeignLegs heldClosed p).1.legs = p.legs := by
  unfold loadForeignLegs
  split
  · exact legs_openLegs heldClosed p
  · rfl

/-- Loading the foreign legs leaves every position restored. -/
theorem AllRestored.loadForeignLegs (h : AllRestored env waiting listOf states positions)
    (heldClosed : Finset String) : AllRestored env waiting listOf states
      (positions.mapAccum fun _ p => VenueBook.loadForeignLegs heldClosed p).1 := by
  apply h.change
  · intro x p hget
    rw [Dict.get?_mapAccum] at hget
    obtain ⟨q, hq, rfl⟩ := Option.map_eq_some_iff.mp hget
    refine ⟨q, hq, fun level => ?_⟩
    rw [legs_loadForeignLegs]
  · intro x q hq
    rw [Dict.get?_mapAccum, hq]
    exact ⟨_, rfl⟩

/-! ## A second load -/

/-- A book emptied of what a load rebuilds. -/
def emptied (b : Book) (kept : Finset ℤ) (readMs : ℤ) : Book :=
  { b with
    positions := Dict.empty, unloadedOrders := Dict.empty, reported := ∅, openOrders := Dict.empty
    kept, keptMs := readMs, unconfirmed := ∅ }

/-- Loading the positions leaves what a load empties first. -/
theorem emptied_loadPositions (env : Env) (waiting : Finset String) (listOf : ℤ → List ProtoOAOrder)
    (states : List ProtoOAPosition) (b : Book) (kept : Finset ℤ) (readMs : ℤ) :
    emptied (loadPositions env waiting listOf states b).1 kept readMs = emptied b kept readMs := by
  rw [loadPositions_same]
  rfl

/-- Loading the orders leaves it too. -/
theorem emptied_loadOrders (env : Env) (orders : List ProtoOAOrder) (b : Book) (kept : Finset ℤ)
    (readMs : ℤ) : emptied (orders.foldl (loadOrder env) b) kept readMs = emptied b kept readMs := by
  induction orders generalizing b with
  | nil => rfl
  | cons order rest ih =>
    rw [List.foldl_cons, ih]
    unfold loadOrder
    split
    · split
      · rfl
      · rfl
    · dsimp only
      split
      · rfl
      · split
        · rfl
        · rfl

/-- The settled legs are those of some position that ended or were accepted. -/
theorem mem_settledLegs {b : Book} {id : String} : id ∈ settledLegs b ↔
    ∃ x p level leg, (x, p) ∈ b.positions.entries ∧ p.legs.get? level = some leg ∧
      (leg.alive = false ∨ leg.accepted = true) ∧ leg.clientOrderId = id := by
  simp only [settledLegs, List.mem_toFinset, List.mem_flatMap, List.mem_map, List.mem_filter,
    Dict.values, ByLevel.mem_values, Bool.or_eq_true, Bool.not_eq_true']
  constructor
  · rintro ⟨p, ⟨⟨x, q⟩, hin, rfl⟩, leg, ⟨⟨level, hleg⟩, hsettled⟩, hid⟩
    exact ⟨x, q, level, leg, hin, hleg, hsettled, hid⟩
  · rintro ⟨x, p, level, leg, hin, hleg, hsettled, hid⟩
    exact ⟨p, ⟨(x, p), hin, rfl⟩, leg, ⟨⟨level, hleg⟩, hsettled⟩, hid⟩

/-- A leg a load leaves: its level is there, or it waits for it, or it is dead. -/
theorem LegsOf.leg {named : ByLevel String} {legs : ByLevel Leg} {level : Level} {leg : Leg}
    (h : LegsOf waiting named levels legs) (hleg : legs.get? level = some leg) :
    named.get? level = some leg.clientOrderId ∧
      leg.alive = ((levels.get? level).isSome || decide (leg.clientOrderId ∈ waiting)) ∧
      leg.accepted = (levels.get? level).isSome := by
  have hof := h level
  rw [hleg, Option.map_some] at hof
  obtain ⟨id, hnamed, hsame⟩ := Option.map_eq_some_iff.mp hof.symm
  simp only [Prod.mk.injEq] at hsame
  obtain ⟨rfl, halive, haccepted⟩ := hsame
  exact ⟨hnamed, halive.symm, haccepted.symm⟩

/-- A named leg is held under its name. -/
theorem LegsOf.named {named : ByLevel String} {legs : ByLevel Leg} {level : Level} {id : String}
    (h : LegsOf waiting named levels legs) (hnamed : named.get? level = some id) :
    ∃ leg, legs.get? level = some leg ∧ leg.clientOrderId = id := by
  have hof := h level
  rw [hnamed, Option.map_some] at hof
  obtain ⟨leg, hleg, hsame⟩ := Option.map_eq_some_iff.mp hof
  simp only [Prod.mk.injEq] at hsame
  exact ⟨leg, hleg, hsame.1⟩

/-- Whether a snapshot has a level of a position it lists. -/
def hasLevel (env : Env) (state : ProtoOAPosition) (level : Level) : Bool :=
  match listedLevels env state with
  | .error _ => false
  | .ok levels => (levels.get? level).isSome

/-- No leg that waits is named both at a level the snapshot has and at one it lacks. -/
def Unambiguous (env : Env) (snapshot : ProtoOAReconcileRes) (listOf : ℤ → List ProtoOAOrder)
    (waiting : Finset String) : Prop :=
  ∀ state ∈ snapshot.position, ∀ state' ∈ snapshot.position, ∀ level level', ∀ id ∈ waiting,
    (namedLegs (listOf state.positionId)).get? level = some id →
    (namedLegs (listOf state'.positionId)).get? level' = some id →
    hasLevel env state level = true → hasLevel env state' level' = true

/-- What the first load leaves waiting is what the second finds waiting, at every level it asks for. -/
theorem waiting_again {b b' : Book} {snapshot : ProtoOAReconcileRes} {asked : Finset String}
    {kept : List (ℤ × Position)} (hkept : ∀ entry ∈ kept, entry ∈ b.positions.entries)
    (hbuilt : AllRestored env (asked \ settledLegs b) listOf snapshot.position positions)
    (hentries : b'.positions.entries = positions.entries ++ kept)
    (hnamed : Unambiguous env snapshot listOf (asked \ settledLegs b))
    {state : ProtoOAPosition} (hstate : state ∈ snapshot.position) (hlevels : listedLevels env state = .ok levels)
    {level : Level} {id : String} (hid : (namedLegs (listOf state.positionId)).get? level = some id)
    (hnone : (levels.get? level).isSome = false) :
    id ∈ asked \ settledLegs b ↔ id ∈ asked \ settledLegs b' := by
  have hlacks : hasLevel env state level = false := by
    rw [hasLevel, hlevels]
    exact hnone
  constructor
  · -- settled by the first load, the leg was dead or had its level, and then it did not wait
    intro hwaits
    refine Finset.mem_sdiff.mpr ⟨(Finset.mem_sdiff.mp hwaits).1, fun hsettled => ?_⟩
    obtain ⟨x, p, level', leg, hin, hleg, hdone, hsame⟩ := mem_settledLegs.mp hsettled
    rw [hentries, List.mem_append] at hin
    rcases hin with hlisted | hgone
    · obtain ⟨state', hstate', rfl, levels', hlevels', hof⟩ :=
        hbuilt.restored x p (Dict.get?_eq_some.mpr hlisted)
      obtain ⟨hname, halive, haccepted⟩ := hof.leg hleg
      rw [hsame] at hname halive
      by_cases hhas : (levels'.get? level').isSome = true
      · have hlevel' : hasLevel env state' level' = true := by
          rw [hasLevel, hlevels']
          exact hhas
        have hlevel := hnamed state' hstate' state hstate level' level id hwaits hname hid hlevel'
        exact Bool.false_ne_true (hlacks.symm.trans hlevel)
      · rcases hdone with hdead | hyes
        · simp [hdead, hwaits] at halive
        · exact hhas (haccepted.symm.trans hyes)
    · have hold : id ∈ settledLegs b :=
        mem_settledLegs.mpr ⟨x, p, level', leg, hkept _ hgone, hleg, hdone, hsame⟩
      exact (Finset.mem_sdiff.mp hwaits).2 hold
  · -- a leg the first load did not leave waiting is settled in the book it built
    intro hwaits
    obtain ⟨hasked, hunsettled⟩ := Finset.mem_sdiff.mp hwaits
    by_contra hnot
    apply hunsettled
    obtain ⟨p, hp⟩ := hbuilt.listed state hstate
    obtain ⟨state', hstate', hpos, levels', hlevels', hof⟩ := hbuilt.restored _ p hp
    obtain ⟨leg, hleg, hsame⟩ := hof.named hid
    obtain ⟨-, halive, haccepted⟩ := hof.leg hleg
    refine mem_settledLegs.mpr ⟨state.positionId, p, level, leg, ?_, hleg, ?_, hsame⟩
    · rw [hentries, List.mem_append]
      exact .inl (Dict.get?_eq_some.mp hp)
    · cases hhas : (levels'.get? level).isSome with
      | true => exact .inr (haccepted.trans hhas)
      | false =>
        left
        rw [halive, hhas, hsame, Bool.false_or]
        exact decide_eq_false hnot

/-- What a load that returns comes to. -/
theorem load_eq_ok {b b' : Book} {snapshot : ProtoOAReconcileRes} {keepGone : Bool} {readMs : ℤ}
    {asked : Finset String} {records : List Record} :
    load env b snapshot listOf keepGone readMs asked = (b', .ok records) ↔
      ∃ notices, (loadPositions env (asked \ settledLegs b) listOf snapshot.position
          (emptied b ((gonePositions b snapshot keepGone).map Prod.fst).toFinset readMs)).2 = .ok notices ∧
        let listed := snapshot.order.foldl (loadOrder env)
          (loadPositions env (asked \ settledLegs b) listOf snapshot.position
            (emptied b ((gonePositions b snapshot keepGone).map Prod.fst).toFinset readMs)).1
        let foreign := listed.positions.mapAccum fun _ p => loadForeignLegs env.heldClosed p
        b' = { listed with
          positions := (gonePositions b snapshot keepGone).foldl
            (fun positions entry => positions.set entry.1 entry.2) foreign.1 } ∧
          records = notices ++ foreign.2 := by
  unfold load emptied
  dsimp only
  split
  · rename_i failure hfailure
    rw [hfailure]
    simp
  · rename_i notices hnotices
    rw [hnotices]
    simp only [Prod.mk.injEq, Except.ok.injEq, exists_eq_left']
    constructor
    · rintro ⟨rfl, rfl⟩
      exact ⟨rfl, rfl⟩
    · rintro ⟨rfl, rfl⟩
      exact ⟨rfl, rfl⟩

/-- Loading the same input again leaves the same book and returns the same records. -/
theorem load_again {b b' : Book} {snapshot : ProtoOAReconcileRes} {keepGone : Bool} {readMs : ℤ}
    {asked : Finset String} {records : List Record}
    (hnamed : Unambiguous env snapshot listOf (asked \ settledLegs b))
    (hload : load env b snapshot listOf keepGone readMs asked = (b', .ok records)) :
    load env b' snapshot listOf keepGone readMs asked = (b', .ok records) := by
  obtain ⟨notices, hnotices, hbook, hrecords⟩ := load_eq_ok.mp hload
  generalize hgone : gonePositions b snapshot keepGone = gone at hnotices hbook hrecords
  generalize hloaded : loadPositions env (asked \ settledLegs b) listOf snapshot.position
    (emptied b (gone.map Prod.fst).toFinset readMs) = loaded at hnotices hbook hrecords
  have hstart : AllRestored env (asked \ settledLegs b) listOf snapshot.position loaded.1.positions := by
    have hok : (loadPositions env (asked \ settledLegs b) listOf snapshot.position
        (emptied b (gone.map Prod.fst).toFinset readMs)).2 = .ok notices := by rw [hloaded, hnotices]
    obtain ⟨hrestored, hcontains⟩ := restored_loadPositions (fun state hin => hin) hok
      fun x p hget => by cases hget
    rw [hloaded] at hrestored hcontains
    refine ⟨hrestored, fun state hin => ?_⟩
    exact Dict.contains_eq_true.mp (hcontains _ (.inl (List.mem_map_of_mem hin)))
  have hbuilt := (hstart.loadOrders snapshot.order).loadForeignLegs env.heldClosed
  generalize hforeign : ((snapshot.order.foldl (loadOrder env) loaded.1).positions.mapAccum fun _ p =>
    loadForeignLegs env.heldClosed p) = foreign at hbuilt hbook hrecords
  have hlisted : ∀ x ∈ foreign.1.keys, x ∈ snapshot.position.map ProtoOAPosition.positionId := by
    intro x hin
    obtain ⟨⟨x', p⟩, hentry, rfl⟩ := List.mem_map.mp hin
    obtain ⟨state, hstate, hpos, -⟩ := hbuilt.restored x' p (Dict.get?_eq_some.mpr hentry)
    exact List.mem_map.mpr ⟨state, hstate, hpos⟩
  -- Everything kept is behind the positions listed.
  have hentries : b'.positions.entries = foreign.1.entries ++ gone := by
    rw [hbook]
    apply Dict.entries_foldl_set
    · rw [← hgone]
      exact b.positions.nodup.sublist (List.filter_sublist.map Prod.fst)
    · intro x hx hin
      rw [← hgone] at hx
      obtain ⟨entry, hentry, rfl⟩ := List.mem_map.mp hx
      have hout := (List.mem_filter.mp hentry).2
      simp only [Bool.and_eq_true, decide_eq_true_eq] at hout
      exact hout.1.1.2 (hlisted _ hin)
  have hgone' : gonePositions b' snapshot keepGone = gone := by
    unfold gonePositions
    dsimp only
    rw [hentries, List.filter_append, List.filter_eq_nil_iff.mpr, List.nil_append,
      List.filter_eq_self.mpr]
    · intro entry hin
      rw [← hgone] at hin
      exact (List.mem_filter.mp hin).2
    · intro entry hin
      have hkey := hlisted entry.1 (List.mem_map_of_mem hin)
      simp [hkey]
  have hwaiting (start : Book) :
      loadPositions env (asked \ settledLegs b) listOf snapshot.position start =
        loadPositions env (asked \ settledLegs b') listOf snapshot.position start := by
    apply loadPositions_congr
    intro state hstate levels hlevels
    apply restorePosition_congr
    intro level id hid hnone
    apply waiting_again _ hbuilt hentries hnamed hstate hlevels hid hnone
    intro entry hin
    rw [← hgone] at hin
    exact (List.mem_filter.mp hin).1
  have hemptied : emptied b' (gone.map Prod.fst).toFinset readMs =
      emptied b (gone.map Prod.fst).toFinset readMs := by
    have hlast : emptied b' (gone.map Prod.fst).toFinset readMs =
        emptied (snapshot.order.foldl (loadOrder env) loaded.1) (gone.map Prod.fst).toFinset readMs := by
      rw [hbook]
      rfl
    rw [hlast, emptied_loadOrders, ← hloaded, emptied_loadPositions]
    rfl
  apply load_eq_ok.mpr
  rw [hgone', hemptied, ← hwaiting, hloaded]
  refine ⟨notices, hnotices, ?_⟩
  dsimp only
  rw [hforeign]
  exact ⟨hbook, hrecords⟩

/-- A snapshot of the node's position with a stop-loss and no target. -/
def halfProtected : ProtoOAReconcileRes where
  position := [{ Sample.position 150 .open with stopLoss? := some (.finite 90) }]
  order := [Sample.protective 200 (some (.finite 90)) none]

/-- A target whose protective order has not come waits after the first load, and after the second. -/
theorem load_again_waiting :
    let first := load Sample.env {} halfProtected (fun _ => [Sample.nodeEntry]) true 150 {"O-3"}
    first.2 = .ok [.awaitProtection 10] ∧
      load Sample.env first.1 halfProtected (fun _ => [Sample.nodeEntry]) true 150 {"O-3"} = first := by
  have hrecords : (load Sample.env {} halfProtected (fun _ => [Sample.nodeEntry]) true 150 {"O-3"}).2 =
      .ok [.awaitProtection 10] := by decide +kernel
  have hload : load Sample.env {} halfProtected (fun _ => [Sample.nodeEntry]) true 150 {"O-3"} =
      ((load Sample.env {} halfProtected (fun _ => [Sample.nodeEntry]) true 150 {"O-3"}).1,
        .ok [.awaitProtection 10]) := Prod.ext rfl hrecords
  have hnamed : Unambiguous Sample.env halfProtected (fun _ => [Sample.nodeEntry])
      ({"O-3"} \ settledLegs {}) := by
    intro state hstate state' hstate' level level' id hid hname hname' hlevel
    obtain rfl := List.mem_singleton.mp hstate
    obtain rfl : id = "O-3" := by simpa using (Finset.mem_sdiff.mp hid).1
    cases level with
    | stopLoss => exact absurd hname (by decide +kernel)
    | takeProfit => exact absurd hlevel (by decide +kernel)
  refine ⟨hrecords, ?_⟩
  rw [load_again hnamed hload]
  exact Prod.ext rfl hrecords.symm

/-- The record names one leg for both levels, and the snapshot has the stop-loss alone: the first load
leaves it accepted and waiting, the second accepted and dead. -/
theorem load_again_ambiguous :
    let order : ProtoOAOrder := { Sample.entry with
      tradeData := { Sample.entry.tradeData with label := "ntca1:O-1", comment := "ntca1|sl=O-2|tp=O-2" } }
    let first := load Sample.env {} halfProtected (fun _ => [order]) true 150 {"O-2"}
    let second := load Sample.env first.1 halfProtected (fun _ => [order]) true 150 {"O-2"}
    first.2 = .ok [.awaitProtection 10] ∧ second.2 = .ok [] ∧ second.1 ≠ first.1 := by
  decide +kernel

end VenueBook

end NautilusCtrader
