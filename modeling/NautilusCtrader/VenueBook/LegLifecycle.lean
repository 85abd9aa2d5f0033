import Mathlib.Data.List.Pairwise
import NautilusCtrader.VenueBook.LegTracking

/-!
# The lifecycle of every leg

The trackers of a leg of the node's and of a foreign one. Over a run that gives no name twice, what is
told of each leg is a legal lifecycle (`leg_lifecycle`), and where no trigger exceeds its leg, no leg is
filled beyond the quantity last told (`leg_covered`).
-/

namespace NautilusCtrader

open Common OrderRecord

/-- Units add up as volumes do. -/
theorem volumeToUnits_add (v w : ℕ) :
    volumeToUnits (v + w) = volumeToUnits v + volumeToUnits w := by
  simp only [volumeToUnits, Nat.cast_add]
  ring

/-- Units compare as volumes do. -/
theorem volumeToUnits_lt {v w : ℕ} : volumeToUnits v < volumeToUnits w ↔ v < w := by
  rw [volumeToUnits, volumeToUnits, div_lt_div_iff_of_pos_right (by norm_num), Nat.cast_lt]

/-- So they do weakly. -/
theorem volumeToUnits_le {v w : ℕ} : volumeToUnits v ≤ volumeToUnits w ↔ v ≤ w := by
  rw [volumeToUnits, volumeToUnits, div_le_div_iff_of_pos_right (by norm_num), Nat.cast_le]

/-- The stage a living leg of the node's stands at. -/
def Leg.stage (leg : Leg) : Stage ℚ :=
  if leg.accepted then .working (volumeToUnits leg.quantity) (volumeToUnits leg.filled) else .waiting

/-- The stage a living foreign leg stands at. -/
def ForeignLeg.stage (leg : ForeignLeg) : Stage ℚ :=
  .working (volumeToUnits leg.quantity) (volumeToUnits leg.filled)

namespace VenueBook

/-! ## What one change does -/

/-- A fill leads a working leg on, to its end once nothing is left. -/
theorem leads_fill {fits : Prop} (quantity filled volume : ℕ)
    (hfits : fits → filled + volume ≤ quantity) :
    ∃ t, Leads fits (.working (volumeToUnits quantity) (volumeToUnits filled))
        [.filled (volumeToUnits volume)] t ∧
      (filled + volume < quantity →
        t = .working (volumeToUnits quantity) (volumeToUnits (filled + volume))) := by
  refine ⟨_, .single rfl fun h => ?_, fun hlt => ?_⟩
  · rw [Stage.Fits, ← volumeToUnits_add]
    exact volumeToUnits_le.mpr (hfits h)
  · rw [← volumeToUnits_add, if_pos (volumeToUnits_lt.mpr hlt)]

/-- A change of a living leg leads it on to the stage of what it becomes. -/
theorem leads_node {leg : Leg} {level : Level} {change : LegChange} (hallows : leg.Allows change)
    (hwaiting : leg.accepted = false → leg.quantity = 0 ∧ leg.filled = 0) :
    ∃ t, Leads (Act.Fits (.node level leg change)) leg.stage [change.news] t ∧
      ((leg.after change).alive → t = (leg.after change).stage) := by
  cases change with
  | accept quantity =>
    have hstage : leg.stage = .waiting := by simp [Leg.stage, hallows.1]
    rw [hstage]
    refine ⟨_, .single rfl fun _ => ?_, fun _ => ?_⟩
    · exact div_nonneg (Nat.cast_nonneg _) (by norm_num)
    · simp [Leg.stage, Leg.after, (hwaiting hallows.1).2, volumeToUnits]
  | update quantity =>
    have hstage : leg.stage = .working (volumeToUnits leg.quantity) (volumeToUnits leg.filled) := by
      simp [Leg.stage, hallows.1]
    rw [hstage]
    refine ⟨_, .single rfl fun _ => volumeToUnits_le.mpr hallows.2, fun _ => ?_⟩
    simp [Leg.stage, Leg.after, hallows.1]
  | fill volume =>
    -- a fill of a leg that waits ends it, as the leg cannot be covered
    by_cases haccepted : leg.accepted
    · have hstage : leg.stage =
          .working (volumeToUnits leg.quantity) (volumeToUnits leg.filled) := by
        simp [Leg.stage, haccepted]
      rw [hstage]
      have hfits : Act.Fits (.node level leg (.fill volume)) → leg.filled + volume ≤ leg.quantity :=
        fun hfits => hfits haccepted
      obtain ⟨t, hleads, hlt⟩ := leads_fill leg.quantity leg.filled volume hfits
      refine ⟨t, hleads, fun halive => ?_⟩
      rw [hlt (by simpa [Leg.after] using halive)]
      simp [Leg.stage, Leg.after, haccepted]
    · rw [Bool.not_eq_true] at haccepted
      have hstage : leg.stage = .waiting := by simp [Leg.stage, haccepted]
      rw [hstage]
      refine ⟨.finished, .single rfl fun _ => trivial, fun halive => ?_⟩
      have hlt : leg.filled + volume < leg.quantity := by simpa [Leg.after] using halive
      rw [(hwaiting haccepted).1] at hlt
      exact absurd hlt (Nat.not_lt_zero _)
  | cancel =>
    refine ⟨.finished, ?_, fun halive => by cases halive⟩
    unfold Leg.stage
    split
    · exact .single rfl fun _ => trivial
    · exact .single rfl fun _ => trivial
  | reject =>
    have hstage : leg.stage = .waiting := by
      simp [Leg.stage, show leg.accepted = false from hallows]
    rw [hstage]
    exact ⟨.finished, .single rfl fun _ => trivial, fun halive => by cases halive⟩

/-- A change a foreign leg allows leads its stage on. -/
theorem leads_foreign {leg : ForeignLeg} {change : LegChange} {fits : Prop}
    (hallows : leg.Allows change) :
    ∃ t, Leads fits leg.stage [change.news] t ∧
      ((leg.after change).alive → t = (leg.after change).stage) := by
  cases change with
  | accept quantity => exact hallows.elim
  | update quantity =>
    exact ⟨_, .single rfl fun _ => volumeToUnits_le.mpr hallows, fun _ => rfl⟩
  | fill volume =>
    obtain ⟨t, hleads, hlt⟩ := leads_fill leg.quantity leg.filled volume fun _ : fits => hallows
    exact ⟨t, hleads, fun halive => hlt (by simpa [ForeignLeg.after] using halive)⟩
  | cancel => exact ⟨.finished, .single rfl fun _ => trivial, fun halive => by cases halive⟩
  | reject => exact hallows.elim

/-! ## The node's legs -/

/-- A position has a living leg of the node's with this id. -/
def HasLeg (clientOrderId : String) (p : Position) : Prop :=
  ∃ level leg, p.legs.get? level = some leg ∧ leg.alive ∧ leg.clientOrderId = clientOrderId

/-- The one living leg with this id stands at `s`. -/
structure LegAt (clientOrderId : String) (p : Position) (s : Stage ℚ) : Prop where
  stage : ∀ level leg, p.legs.get? level = some leg → leg.alive → leg.clientOrderId = clientOrderId →
    s = leg.stage
  unique : ∀ level level' leg leg', p.legs.get? level = some leg → p.legs.get? level' = some leg' →
    leg.alive → leg'.alive → leg.clientOrderId = clientOrderId →
    leg'.clientOrderId = clientOrderId → level = level'

/-- Whether a position has a leg is read off its legs. -/
theorem HasLeg.congr {clientOrderId : String} {p q : Position} (hsame : q.legs = p.legs) :
    HasLeg clientOrderId q ↔ HasLeg clientOrderId p := by
  unfold HasLeg
  rw [hsame]

/-- So is the leg's stage. -/
theorem LegAt.congr {clientOrderId : String} {p q : Position} {s : Stage ℚ}
    (h : LegAt clientOrderId p s) (hsame : q.legs = p.legs) : LegAt clientOrderId q s :=
  ⟨by rw [hsame]; exact h.stage, by rw [hsame]; exact h.unique⟩

/-- A position with a leg of the node knows its entry. -/
theorem HasLeg.entry {clientOrderId : String} {p : Position} (hp : Sound p)
    (h : HasLeg clientOrderId p) : p.entryOrderId ≠ none := by
  obtain ⟨level, leg, hleg, -⟩ := h
  intro hentry
  rw [(hp.no_legs hentry).1, get?_no_legs] at hleg
  cases hleg

/-- It holds the leg's name. -/
theorem HasLeg.held {clientOrderId : String} {p : Position} (h : HasLeg clientOrderId p) :
    LegName.leg clientOrderId ∈ namesHeld p := by
  obtain ⟨level, leg, hleg, halive, rfl⟩ := h
  refine List.mem_append_left _ (List.mem_map.mpr ⟨leg, List.mem_filter.mpr ⟨?_, halive⟩, rfl⟩)
  exact ByLevel.mem_values.mpr ⟨level, hleg⟩

/-- A leg just taken waits, and its id is a name of the entry. -/
theorem leg_of_adopt {p : Position} {order : ProtoOAOrder} {level : Level} {leg : Leg}
    (hp : p.legs = {}) (hleg : (adopt p order false ∅).1.legs.get? level = some leg) :
    leg.stage = .waiting ∧ leg.accepted = false ∧ leg.alive ∧
      LegName.leg leg.clientOrderId ∈ namesOf order false := by
  obtain ⟨entryId, ids, hlabel, hcomment, hid, hadopt⟩ := adopt_leg hp hleg
  have hfresh : leg.accepted = false ∧ leg.alive := by
    rw [hadopt]
    exact ⟨rfl, rfl⟩
  refine ⟨by simp [Leg.stage, hfresh.1], hfresh.1, hfresh.2, ?_⟩
  simp only [namesOf, hlabel, hcomment, Bool.false_eq_true, if_false]
  cases level
  · refine List.mem_append_left _ (List.mem_map_of_mem ?_)
    exact Option.mem_toList.mpr hid
  · refine List.mem_append_right _ (List.mem_map_of_mem ?_)
    exact Option.mem_toList.mpr hid

/-- A leg of the node comes with the entry that names it. -/
theorem node_of_take {clientOrderId : String} {p q : Position} {act : Act} {told : List Record}
    (hp : Sound p) (hentry : p.entryOrderId = none) (hmove : Move p act told q)
    (hq : HasLeg clientOrderId q) :
    LegName.leg clientOrderId ∈ act.names ∧
      (act.names.Nodup → LegAt clientOrderId q .waiting) := by
  have hlegs := (hp.no_legs hentry).1
  have hnone : ∀ q : Position, q.legs = {} → ¬ HasLeg clientOrderId q := by
    rintro q hq ⟨level, leg, hleg, -⟩
    rw [hq, get?_no_legs] at hleg
    cases hleg
  cases hmove with
  | other hsame _ => exact absurd hq (hnone q (hsame.legs.trans hlegs))
  | take order _ _ =>
    obtain ⟨level, leg, hleg, halive, rfl⟩ := hq
    refine ⟨(leg_of_adopt hlegs hleg).2.2.2, fun hnodup => ⟨fun level' leg' hleg' _ _ => ?_, ?_⟩⟩
    · exact (leg_of_adopt hlegs hleg').1.symm
    · intro l l' x x' hx hx' _ _ hid hid'
      obtain ⟨entryId, ids, hlabel, hcomment, hname, -⟩ := adopt_leg hlegs hx
      obtain ⟨entryId', ids', -, hcomment', hname', -⟩ := adopt_leg hlegs hx'
      obtain rfl : ids = ids' := by rw [hcomment, Option.some.injEq] at hcomment'; exact hcomment'
      simp only [Act.names, namesOf, hlabel, hcomment, Bool.false_eq_true, if_false] at hnodup
      rw [hid] at hname
      rw [hid'] at hname'
      cases l <;> cases l' <;> simp only [idOf] at hname hname' <;> try rfl
      all_goals simp [hname, hname'] at hnodup
  | takeEnded order _ _ =>
    obtain ⟨level, leg, hleg, halive, -⟩ := hq
    rw [endLegs_dead hleg] at halive
    cases halive
  | endSilently =>
    obtain ⟨level, leg, hleg, halive, -⟩ := hq
    rw [endLegs_dead hleg] at halive
    cases halive
  | node change hleg =>
    rw [hlegs, get?_no_legs] at hleg
    cases hleg
  | openForeign hentry' =>
    rw [hentry] at hentry'
    cases hentry'
  | foreign change hleg =>
    rw [(hp.no_legs hentry).2] at hleg
    cases hleg

/-- The foreign legs of a sound position have the ids of foreign legs. -/
theorem isLegId_foreign {p : Position} (hp : Sound p) {level : Level} {leg : ForeignLeg}
    (hleg : p.foreignLegs.get? level = some leg) : isLegId leg.venueOrderId := by
  obtain ⟨entryOrderId, -, hid⟩ := hp.foreignId level leg hleg
  rw [hid]
  exact isLegId_legVenueOrderId ..

/-- The record that opens a foreign leg is about it. -/
theorem leg?_opens {p : Position} {entryOrderId : ℤ} {level : Level} {leg : ForeignLeg}
    {record : Record}
    (hid : leg.venueOrderId = legVenueOrderId entryOrderId level leg.generation)
    (h : Opens p leg record) : record.leg? = some (.foreign leg.venueOrderId) ∧
      record.news = some (.opened (volumeToUnits leg.quantity)) := by
  obtain ⟨order, rfl, hvenue, -, hunits⟩ := h
  have hleg : isLegId order.venueOrderId := by
    rw [hvenue, hid]
    exact isLegId_legVenueOrderId ..
  refine ⟨?_, by rw [← hunits]; rfl⟩
  simp only [Record.leg?, hleg, if_true]
  rw [hvenue]

/-- A move on a position that has learnt its entry leads each of the node's legs on. -/
theorem node_of_learnt {clientOrderId : String} {p q : Position} {act : Act} {told : List Record}
    (hp : Sound p) (hentry : p.entryOrderId ≠ none) (hmove : Move p act told q) :
    (∀ s, HasLeg clientOrderId p → LegAt clientOrderId p s →
      ∃ t, Leads act.Fits s (newsOf (.node clientOrderId) told) t ∧
        (HasLeg clientOrderId q → LegAt clientOrderId q t)) ∧
    (¬ HasLeg clientOrderId p →
      newsOf (.node clientOrderId) told = [] ∧ ¬ HasLeg clientOrderId q) := by
  -- A move that leaves the node's legs alone tells nothing of them.
  have hquiet : newsOf (.node clientOrderId) told = [] → q.legs = p.legs →
      (∀ s, HasLeg clientOrderId p → LegAt clientOrderId p s →
        ∃ t, Leads act.Fits s (newsOf (.node clientOrderId) told) t ∧
          (HasLeg clientOrderId q → LegAt clientOrderId q t)) ∧
      (¬ HasLeg clientOrderId p →
        newsOf (.node clientOrderId) told = [] ∧ ¬ HasLeg clientOrderId q) := by
    intro hnil hsame
    exact ⟨fun s _ hs => ⟨s, .of_eq_nil hnil, fun _ => hs.congr hsame⟩,
      fun hnot => ⟨hnil, fun hq => hnot ((HasLeg.congr hsame).mp hq)⟩⟩
  cases hmove with
  | other hsame htold => exact hquiet (newsOf_legless htold) hsame.legs
  | take order hnone _ => exact absurd hnone hentry
  | takeEnded order hnone _ => exact absurd hnone hentry
  | endSilently =>
    have hnot : ¬ HasLeg clientOrderId (endLegs p) := by
      rintro ⟨level, leg, hleg, halive, -⟩
      rw [endLegs_dead hleg] at halive
      cases halive
    exact ⟨fun s _ _ => ⟨s, .nil s, fun h => absurd h hnot⟩, fun _ => ⟨rfl, hnot⟩⟩
  | @node level leg record change hleg halive hallows hkey hnews =>
    by_cases hid : leg.clientOrderId = clientOrderId
    · subst hid
      have hhas : HasLeg leg.clientOrderId p := ⟨level, leg, hleg, halive, rfl⟩
      refine ⟨fun s _ hs => ?_, fun hnot => absurd hhas hnot⟩
      obtain ⟨t, hleads, hstage⟩ :=
        leads_node hallows (hp.waiting level leg hleg halive)
      rw [newsOf_single hkey hnews, hs.stage level leg hleg halive rfl]
      -- The changed leg is the only one of its id that lives.
      have hsole : ∀ l x, (p.legs.set level (leg.after change)).get? l = some x → x.alive →
          x.clientOrderId = leg.clientOrderId → l = level ∧ x = leg.after change := by
        intro l x hx hxalive hxid
        rw [ByLevel.get?_set] at hx
        split at hx
        case isTrue hl => exact ⟨hl.symm, (Option.some.inj hx).symm⟩
        case isFalse hl =>
          exact absurd (hs.unique level l leg x hleg hx halive hxalive rfl hxid) hl
      refine ⟨t, hleads, fun _ => ⟨fun l x hx hxalive hxid => ?_, ?_⟩⟩
      · obtain ⟨-, rfl⟩ := hsole l x hx hxalive hxid
        exact hstage hxalive
      · intro l l' x x' hx hx' hxalive hxalive' hxid hxid'
        exact (hsole l x hx hxalive hxid).1.trans (hsole l' x' hx' hxalive' hxid').1.symm
    · have hnil : newsOf (.node clientOrderId) [record] = [] :=
        newsOf_other hkey fun h => hid (LegKey.node.inj h)
      have hafter : (leg.after change).clientOrderId = leg.clientOrderId := by
        cases change <;> rfl
      have hget : ∀ l x, (p.legs.set level (leg.after change)).get? l = some x →
          x.clientOrderId = clientOrderId → p.legs.get? l = some x := by
        intro l x hx hxid
        rw [ByLevel.get?_set] at hx
        split at hx
        case isTrue => exact absurd (hafter ▸ (Option.some.inj hx) ▸ hxid) hid
        case isFalse => exact hx
      refine ⟨fun s _ hs => ⟨s, .of_eq_nil hnil, fun _ => ⟨?_, ?_⟩⟩, fun hnot => ⟨hnil, ?_⟩⟩
      · exact fun l x hx hxalive hxid => hs.stage l x (hget l x hx hxid) hxalive hxid
      · exact fun l l' x x' hx hx' hxalive hxalive' hxid hxid' =>
          hs.unique l l' x x' (hget l x hx hxid) (hget l' x' hx' hxid') hxalive hxalive' hxid hxid'
      · rintro ⟨l, x, hx, hxalive, hxid⟩
        exact hnot ⟨l, x, hget l x hx hxid, hxalive, hxid⟩
  | openForeign _ _ _ hid _ _ _ hopens =>
    exact hquiet (newsOf_other (leg?_opens hid hopens).1 fun h => by cases h) rfl
  | foreign change hleg _ _ hkey =>
    exact hquiet (newsOf_other (hkey (isLegId_foreign hp hleg)) fun h => by cases h) rfl

/-- The tracker of the node's leg of this id. -/
def nodeTracker (clientOrderId : String) : Tracker where
  key := .node clientOrderId
  name := .leg clientOrderId
  start := .waiting
  Mine := HasLeg clientOrderId
  Match := LegAt clientOrderId
  entry_of_mine _ hp := HasLeg.entry hp
  held_of_mine _ := HasLeg.held
  name_of_take _ _ _ _ hp hentry hmove hq := (node_of_take hp hentry hmove hq).1
  match_of_take _ _ _ _ hp hentry hmove hnodup hq := (node_of_take hp hentry hmove hq).2 hnodup
  of_mine _ _ _ _ s hp hmine hs hmove := (node_of_learnt hp (hmine.entry hp) hmove).1 s hmine hs
  of_other _ _ _ _ hp hentry hnot hmove := (node_of_learnt hp hentry hmove).2 hnot

/-! ## Foreign legs -/

/-- A position the node did not open, with this entry. -/
def HasEntry (entryOrderId : ℤ) (p : Position) : Prop :=
  p.entryOrderId = some entryOrderId ∧ p.entryClientOrderId = none

/-- The leg of this level and generation stands at `s` while it lives, and once it is opened the level
is at its generation or a later one. -/
structure GenerationAt (level : Level) (generation : ℕ+) (p : Position) (s : Stage ℚ) : Prop where
  stage : ∀ leg, p.foreignLegs.get? level = some leg → leg.generation = generation → leg.alive →
    s = leg.stage
  opened : s ≠ .unopened → ∃ leg, p.foreignLegs.get? level = some leg ∧ generation ≤ leg.generation

/-- The stage of a generation is read off its level. -/
theorem GenerationAt.congr {level : Level} {generation : ℕ+} {p q : Position} {s : Stage ℚ}
    (h : GenerationAt level generation p s)
    (hsame : q.foreignLegs.get? level = p.foreignLegs.get? level) :
    GenerationAt level generation q s :=
  ⟨by rw [hsame]; exact h.stage, by rw [hsame]; exact h.opened⟩

/-- The foreign legs of a sound position are named after its own entry. -/
theorem hasEntry_foreign {p : Position} (hp : Sound p) {level : Level} {leg : ForeignLeg}
    (hleg : p.foreignLegs.get? level = some leg) :
    ∃ entryOrderId, HasEntry entryOrderId p ∧
      leg.venueOrderId = legVenueOrderId entryOrderId level leg.generation := by
  obtain ⟨entryOrderId, hentry, hid⟩ := hp.foreignId level leg hleg
  refine ⟨entryOrderId, ⟨hentry, ?_⟩, hid⟩
  by_contra hclient
  rw [hp.foreignLegs hclient] at hleg
  cases hleg

/-- A position with an entry holds its name. -/
theorem HasEntry.held {entryOrderId : ℤ} {p : Position} (h : HasEntry entryOrderId p) :
    LegName.entry entryOrderId ∈ namesHeld p := by
  refine List.mem_append_right _ ?_
  simp [Position.ours, h.1, h.2]

/-- The foreign legs of an entry come after it. -/
theorem foreign_of_take (level : Level) (generation : ℕ+) {entryOrderId : ℤ} {p q : Position}
    {act : Act} {told : List Record} (hp : Sound p) (hentry : p.entryOrderId = none)
    (hmove : Move p act told q) (hq : HasEntry entryOrderId q) :
    LegName.entry entryOrderId ∈ act.names ∧ GenerationAt level generation q .unopened := by
  obtain ⟨hlegs, hforeign⟩ := hp.no_legs hentry
  have hadopt : ∀ (order : ProtoOAOrder) (ended : Bool),
      (adopt p order false ∅).1.entryOrderId = some entryOrderId →
      (adopt p order false ∅).1.entryClientOrderId = none →
      LegName.entry entryOrderId ∈ namesOf order ended := by
    intro order ended hid hclient
    obtain ⟨-, -, hid', hclient'⟩ := adopt_entry p order false ∅
    rw [hid', Option.some.injEq] at hid
    rw [hclient', hp.unlearnt hentry, Option.or_none] at hclient
    simp [namesOf, hclient, hid]
  have hnone : ∀ q : Position, q.foreignLegs.get? level = none →
      GenerationAt level generation q .unopened :=
    fun q hq => ⟨fun leg hleg => (by rw [hq] at hleg; cases hleg), fun h => absurd rfl h⟩
  have hkept : ∀ order, (adopt p order false ∅).1.foreignLegs.get? level = none := fun order => by
    rw [(adopt_entry p order false ∅).2.1, hforeign]
  cases hmove with
  | other hsame _ =>
    have := hsame.entryOrderId.symm.trans hq.1
    rw [hentry] at this
    cases this
  | take order _ _ => exact ⟨hadopt order false hq.1 hq.2, hnone _ (hkept order)⟩
  | takeEnded order _ _ => exact ⟨hadopt order true hq.1 hq.2, hnone _ (hkept order)⟩
  | endSilently =>
    have : p.entryOrderId = some entryOrderId := hq.1
    rw [hentry] at this
    cases this
  | node change hleg =>
    rw [hlegs, get?_no_legs] at hleg
    cases hleg
  | openForeign hentry' =>
    rw [hentry] at hentry'
    cases hentry'
  | foreign change hleg =>
    rw [hforeign] at hleg
    cases hleg

/-- A move on a position that has learnt its entry leads each foreign leg on. -/
theorem foreign_of_learnt {entryOrderId : ℤ} {level : Level} {generation : ℕ+} {p q : Position}
    {act : Act} {told : List Record} (hp : Sound p) (hentry : p.entryOrderId ≠ none)
    (hmove : Move p act told q) :
    let key := LegKey.foreign (legVenueOrderId entryOrderId level generation)
    (∀ s, HasEntry entryOrderId p → GenerationAt level generation p s →
      ∃ t, Leads act.Fits s (newsOf key told) t ∧ GenerationAt level generation q t) ∧
    (¬ HasEntry entryOrderId p → newsOf key told = []) := by
  intro key
  -- A move that leaves the level alone and tells nothing of the leg.
  have hquiet : newsOf key told = [] →
      q.foreignLegs.get? level = p.foreignLegs.get? level →
      (∀ s, HasEntry entryOrderId p → GenerationAt level generation p s →
        ∃ t, Leads act.Fits s (newsOf key told) t ∧ GenerationAt level generation q t) ∧
      (¬ HasEntry entryOrderId p → newsOf key told = []) :=
    fun hnil hsame => ⟨fun s _ hs => ⟨s, .of_eq_nil hnil, hs.congr hsame⟩, fun _ => hnil⟩
  cases hmove with
  | other hsame htold => exact hquiet (newsOf_legless htold) (by rw [hsame.foreignLegs])
  | take order hnone _ => exact absurd hnone hentry
  | takeEnded order hnone _ => exact absurd hnone hentry
  | endSilently => exact hquiet rfl rfl
  | node change _ _ _ hkey =>
    exact hquiet (newsOf_other hkey (LegKey.noConfusion : LegKey.node _ ≠ .foreign _)) rfl
  | @openForeign e l leg record hentry' hclient hnone hid hgeneration halive hfilled hopens =>
    obtain ⟨hkey, hnews⟩ := leg?_opens hid hopens
    by_cases hsame : leg.venueOrderId = legVenueOrderId entryOrderId level generation
    · obtain ⟨rfl, rfl, hgen⟩ := legVenueOrderId_injective (hid.symm.trans hsame)
      refine ⟨fun s _ hs => ?_, fun hnot => absurd ⟨hentry', hclient⟩ hnot⟩
      -- The leg is opened here for the first time: generations only grow.
      have hs' : s = .unopened := by
        by_contra hopened
        obtain ⟨last, hlast, hle⟩ := hs.opened hopened
        exact absurd (hgeneration last hlast) (not_lt.mpr (hgen ▸ hle))
      rw [newsOf_single (hkey.trans (by rw [hsame])) hnews, hs']
      refine ⟨leg.stage, .single ?_ fun _ => ?_, ⟨fun x hx _ _ => ?_, fun _ => ⟨leg, ?_, hgen.ge⟩⟩⟩
      · simp [Stage.next, ForeignLeg.stage, hfilled, volumeToUnits]
      · exact div_nonneg (Nat.cast_nonneg _) (by norm_num)
      · rw [Dict.get?_set_self, Option.some.injEq] at hx
        rw [hx]
      · rw [Dict.get?_set_self]
    · have hnil : newsOf key [record] = [] := newsOf_other hkey fun h => hsame (LegKey.foreign.inj h)
      refine ⟨fun s hmine hs => ⟨s, .of_eq_nil hnil, ?_⟩, fun _ => hnil⟩
      obtain rfl : e = entryOrderId := Option.some.inj (hentry'.symm.trans hmine.1)
      by_cases hl : l = level
      · subst hl
        refine ⟨fun x hx hgen _ => ?_, fun hopened => ⟨leg, Dict.get?_set_self .., ?_⟩⟩
        · rw [Dict.get?_set_self, Option.some.injEq] at hx
          subst hx
          exact absurd (hgen ▸ hid) hsame
        · obtain ⟨last, hlast, hle⟩ := hs.opened hopened
          exact hle.trans (hgeneration last hlast).le
      · exact hs.congr (Dict.get?_set_of_ne _ _ hl)
  | @foreign l leg record change hleg halive hallows hkey hnews =>
    replace hkey := hkey (isLegId_foreign hp hleg)
    obtain ⟨e, hmine, hid⟩ := hasEntry_foreign hp hleg
    have hafter : (leg.after change).generation = leg.generation := by cases change <;> rfl
    by_cases hsame : leg.venueOrderId = legVenueOrderId entryOrderId level generation
    · obtain ⟨rfl, rfl, hgen⟩ := legVenueOrderId_injective (hid.symm.trans hsame)
      refine ⟨fun s _ hs => ?_, fun hnot => absurd hmine hnot⟩
      obtain ⟨t, hleads, hstage⟩ := leads_foreign hallows
      rw [newsOf_single (hkey.trans (by rw [hsame])) hnews, hs.stage leg hleg hgen halive]
      refine ⟨t, hleads, ⟨fun x hx _ hxalive => ?_, fun _ => ⟨_, Dict.get?_set_self .., ?_⟩⟩⟩
      · rw [Dict.get?_set_self, Option.some.injEq] at hx
        subst hx
        exact hstage hxalive
      · rw [hafter, hgen]
    · have hnil : newsOf key [record] = [] := newsOf_other hkey fun h => hsame (LegKey.foreign.inj h)
      refine ⟨fun s hmine' hs => ⟨s, .of_eq_nil hnil, ?_⟩, fun _ => hnil⟩
      obtain rfl : e = entryOrderId := Option.some.inj (hmine.1.symm.trans hmine'.1)
      by_cases hl : l = level
      · subst hl
        refine ⟨fun x hx hgen _ => ?_, fun hopened => ⟨_, Dict.get?_set_self .., ?_⟩⟩
        · rw [Dict.get?_set_self, Option.some.injEq] at hx
          subst hx
          rw [hafter] at hgen
          exact absurd (hgen ▸ hid) hsame
        · obtain ⟨last, hlast, hle⟩ := hs.opened hopened
          rw [hleg, Option.some.injEq] at hlast
          rw [hafter, hlast]
          exact hle
      · exact hs.congr (Dict.get?_set_of_ne _ _ hl)

/-- An entry that is known stays the same. -/
theorem hasEntry_of_learnt {entryOrderId : ℤ} {p q : Position} {act : Act} {told : List Record}
    (hentry : p.entryOrderId ≠ none) (hmove : Move p act told q)
    (hq : HasEntry entryOrderId q) : HasEntry entryOrderId p := by
  obtain ⟨-, hid, hclient⟩ := move_learnt hmove hentry
  exact ⟨hid ▸ hq.1, hclient ▸ hq.2⟩

/-- The tracker of the foreign leg of this entry, level and generation. -/
def foreignTracker (entryOrderId : ℤ) (level : Level) (generation : ℕ+) : Tracker where
  key := .foreign (legVenueOrderId entryOrderId level generation)
  name := .entry entryOrderId
  start := .unopened
  Mine := HasEntry entryOrderId
  Match := GenerationAt level generation
  entry_of_mine p _ hmine hnone := by
    rw [hmine.1] at hnone
    cases hnone
  held_of_mine _ := HasEntry.held
  name_of_take _ _ _ _ hp hentry hmove hq :=
    (foreign_of_take level generation hp hentry hmove hq).1
  match_of_take _ _ _ _ hp hentry hmove _ hq := (foreign_of_take level generation hp hentry hmove hq).2
  of_mine _ _ _ _ s hp hmine hs hmove := by
    obtain ⟨t, hleads, hmatch⟩ :=
      (foreign_of_learnt hp (by rw [hmine.1]; exact Option.some_ne_none _) hmove).1 s hmine hs
    exact ⟨t, hleads, fun _ => hmatch⟩
  of_other _ _ _ _ hp hentry hnot hmove :=
    ⟨(foreign_of_learnt hp hentry hmove).2 hnot, fun hq => hnot (hasEntry_of_learnt hentry hmove hq)⟩

/-- Nothing is told of a foreign leg under an id no leg can have. -/
def strayTracker (venueOrderId : String)
    (hstray : ∀ entryOrderId level generation,
      legVenueOrderId entryOrderId level generation ≠ venueOrderId) : Tracker where
  key := .foreign venueOrderId
  name := .leg venueOrderId
  start := .unopened
  Mine _ := False
  Match _ _ := True
  entry_of_mine _ _ h := h.elim
  held_of_mine _ h := h.elim
  name_of_take _ _ _ _ _ _ _ h := h.elim
  match_of_take _ _ _ _ _ _ _ _ _ := trivial
  of_mine _ _ _ _ _ _ h := h.elim
  of_other p act told q hp hentry _ hmove := by
    refine ⟨?_, id⟩
    cases hmove with
    | other _ htold => exact newsOf_legless htold
    | take order hnone _ => exact absurd hnone hentry
    | takeEnded order hnone _ => exact absurd hnone hentry
    | endSilently => rfl
    | node change _ _ _ hkey =>
      exact newsOf_other hkey (LegKey.noConfusion : LegKey.node _ ≠ .foreign _)
    | openForeign _ _ _ hid _ _ _ hopens =>
      exact newsOf_other (leg?_opens hid hopens).1
        fun h => hstray _ _ _ (hid.symm.trans (LegKey.foreign.inj h))
    | foreign change hleg _ _ hkey =>
      obtain ⟨e, -, hid⟩ := hasEntry_foreign hp hleg
      exact newsOf_other (hkey (isLegId_foreign hp hleg))
        fun h => hstray _ _ _ (hid.symm.trans (LegKey.foreign.inj h))

/-! ## Where a run starts -/

/-- The node's living legs. -/
def liveLegs (b : Book) : List Leg :=
  b.positions.values.flatMap fun p => p.legs.values.filter Leg.alive

/-- The living foreign legs. -/
def liveForeignLegs (b : Book) : List ForeignLeg :=
  b.positions.values.flatMap fun p => p.foreignLegs.values.filter ForeignLeg.alive

/-- The stage a leg stands at before a run: that of the living leg with its id, or, where there is
none, that of a node's leg still to be accepted or a foreign one still to be opened. -/
def stageIn (b : Book) : LegKey → Stage ℚ
  | .node clientOrderId =>
    match (liveLegs b).find? fun leg => leg.clientOrderId = clientOrderId with
    | some leg => leg.stage
    | none => .waiting
  | .foreign venueOrderId =>
    match (liveForeignLegs b).find? fun leg => leg.venueOrderId = venueOrderId with
    | some leg => leg.stage
    | none => .unopened

/-- The live legs of a book are those of its positions. -/
theorem mem_liveLegs {b : Book} {leg : Leg} : leg ∈ liveLegs b ↔
    leg.alive ∧ ∃ x p level, b.positions.get? x = some p ∧ p.legs.get? level = some leg := by
  simp only [liveLegs, List.mem_flatMap, List.mem_filter, Dict.mem_values, ByLevel.mem_values]
  constructor
  · rintro ⟨p, ⟨x, hp⟩, ⟨level, hleg⟩, halive⟩
    exact ⟨halive, x, p, level, hp, hleg⟩
  · rintro ⟨halive, x, p, level, hp, hleg⟩
    exact ⟨p, ⟨x, hp⟩, ⟨level, hleg⟩, halive⟩

/-- So are the foreign ones. -/
theorem mem_liveForeignLegs {b : Book} {leg : ForeignLeg} : leg ∈ liveForeignLegs b ↔
    leg.alive ∧ ∃ x p level, b.positions.get? x = some p ∧ p.foreignLegs.get? level = some leg := by
  simp only [liveForeignLegs, List.mem_flatMap, List.mem_filter, Dict.mem_values]
  constructor
  · rintro ⟨p, ⟨x, hp⟩, ⟨level, hleg⟩, halive⟩
    exact ⟨halive, x, p, level, hp, hleg⟩
  · rintro ⟨halive, x, p, level, hp, hleg⟩
    exact ⟨p, ⟨x, hp⟩, ⟨level, hleg⟩, halive⟩

/-- The names a book holds are those its positions hold. -/
theorem mem_heldNames {b : Book} {name : LegName} :
    name ∈ heldNames b ↔ ∃ x p, b.positions.get? x = some p ∧ name ∈ namesHeld p := by
  simp only [heldNames, List.mem_flatMap, Dict.mem_values]
  constructor
  · rintro ⟨p, ⟨x, hp⟩, hname⟩
    exact ⟨x, p, hp, hname⟩
  · rintro ⟨x, p, hp, hname⟩
    exact ⟨p, ⟨x, hp⟩, hname⟩

/-- Where no name is held twice, one position holds it. -/
theorem held_unique {b : Book} (hnodup : (heldNames b).Nodup) {x y : ℤ} {p q : Position}
    (hp : b.positions.get? x = some p) (hq : b.positions.get? y = some q) {name : LegName}
    (hname : name ∈ namesHeld p) (hname' : name ∈ namesHeld q) : x = y := by
  rw [heldNames, Dict.values, List.flatMap_map, List.nodup_flatMap] at hnodup
  by_contra hne
  have : Std.Symm (Function.onFun List.Disjoint fun entry : ℤ × Position => namesHeld entry.2) :=
    ⟨fun _ _ h => List.disjoint_comm.mp h⟩
  have hdisjoint := hnodup.2.forall (Dict.get?_eq_some.mp hp) (Dict.get?_eq_some.mp hq)
    fun h => hne (congrArg Prod.fst h)
  exact hdisjoint hname hname'

/-- Where a position holds no name twice, its living legs have distinct ids. -/
theorem level_unique {p : Position} (hnodup : (namesHeld p).Nodup) {level level' : Level}
    {leg leg' : Leg} (hleg : p.legs.get? level = some leg) (hleg' : p.legs.get? level' = some leg')
    (halive : leg.alive) (halive' : leg'.alive) (hid : leg.clientOrderId = leg'.clientOrderId) :
    level = level' := by
  have hids := (List.nodup_append.mp hnodup).1
  cases level <;> cases level' <;> try rfl
  all_goals
    simp only [ByLevel.get?_stopLoss, ByLevel.get?_takeProfit] at hleg hleg'
    simp [ByLevel.values, ByLevel.items, Level.all, hleg, hleg', halive, halive', hid] at hids

/-- Where a book holds no name twice, no position does. -/
theorem namesHeld_nodup {b : Book} (hnodup : (heldNames b).Nodup) {x : ℤ} {p : Position}
    (hp : b.positions.get? x = some p) : (namesHeld p).Nodup :=
  (List.nodup_flatMap.mp hnodup).1 p (Dict.mem_values.mpr ⟨x, hp⟩)

/-- A tracker of a leg of the node tracks it. -/
theorem node_tracks {b : Book} (hb : AllSound b) (hnodup : (heldNames b).Nodup)
    (clientOrderId : String) : (nodeTracker clientOrderId).Tracks b
      (stageIn b (.node clientOrderId)) (LegName.leg clientOrderId ∈ heldNames b) where
  sound := hb
  matched x p hp _ := by
    have hunique : ∀ level level' leg leg', p.legs.get? level = some leg →
        p.legs.get? level' = some leg' → leg.alive → leg'.alive →
        leg.clientOrderId = clientOrderId → leg'.clientOrderId = clientOrderId → level = level' :=
      fun level level' leg leg' h h' halive halive' hid hid' =>
        level_unique (namesHeld_nodup hnodup hp) h h' halive halive' (hid.trans hid'.symm)
    refine ⟨fun level leg hleg halive hid => ?_, hunique⟩
    cases hfind : (liveLegs b).find? fun leg => leg.clientOrderId = clientOrderId with
    | none =>
      have hmem : leg ∈ liveLegs b := mem_liveLegs.mpr ⟨halive, x, p, level, hp, hleg⟩
      exact absurd hid (by simpa using List.find?_eq_none.mp hfind leg hmem)
    | some found =>
      obtain ⟨halive', y, q, level', hq, hleg'⟩ := mem_liveLegs.mp (List.mem_of_find?_eq_some hfind)
      have hid' : found.clientOrderId = clientOrderId := by simpa using List.find?_some hfind
      have hname : LegName.leg clientOrderId ∈ namesHeld p :=
        HasLeg.held ⟨level, leg, hleg, halive, hid⟩
      have hname' : LegName.leg clientOrderId ∈ namesHeld q :=
        HasLeg.held ⟨level', found, hleg', halive', hid'⟩
      obtain rfl := held_unique hnodup hp hq hname hname'
      obtain rfl : p = q := Option.some.inj (hp.symm.trans hq)
      obtain rfl := hunique level level' leg found hleg hleg' halive halive' hid hid'
      rw [hleg, Option.some.injEq] at hleg'
      simp only [stageIn, hfind, hleg']
  unique x y p q hp hq hmine hmine' := held_unique hnodup hp hq hmine.held hmine'.held
  unused hnot := by
    have hnone : ∀ x p, b.positions.get? x = some p → ¬ HasLeg clientOrderId p :=
      fun x p hp hmine => hnot (mem_heldNames.mpr ⟨x, p, hp, hmine.held⟩)
    refine ⟨?_, hnone⟩
    have hfind : ((liveLegs b).find? fun leg => leg.clientOrderId = clientOrderId) = none := by
      refine List.find?_eq_none.mpr fun leg hleg => ?_
      obtain ⟨halive, x, p, level, hp, hget⟩ := mem_liveLegs.mp hleg
      simpa using fun hid => hnone x p hp ⟨level, leg, hget, halive, hid⟩
    simp only [stageIn, hfind, nodeTracker]

/-- A tracker of a foreign leg tracks it. -/
theorem foreign_tracks {b : Book} (hb : AllSound b) (hnodup : (heldNames b).Nodup)
    (entryOrderId : ℤ) (level : Level) (generation : ℕ+) :
    (foreignTracker entryOrderId level generation).Tracks b
      (stageIn b (.foreign (legVenueOrderId entryOrderId level generation)))
      (LegName.entry entryOrderId ∈ heldNames b) where
  sound := hb
  matched x p hp hmine := by
    -- The living leg of the id, if there is one, is this position's.
    have hfound : ∀ leg, leg ∈ liveForeignLegs b →
        leg.venueOrderId = legVenueOrderId entryOrderId level generation →
        p.foreignLegs.get? level = some leg ∧ leg.generation = generation := by
      intro leg hleg hid
      obtain ⟨-, y, q, l, hq, hget⟩ := mem_liveForeignLegs.mp hleg
      obtain ⟨e, hentry, hid'⟩ := hasEntry_foreign (hb y q hq).1 hget
      obtain ⟨rfl, rfl, hgen⟩ := legVenueOrderId_injective (hid'.symm.trans hid)
      obtain rfl := held_unique hnodup hp hq hmine.held hentry.held
      obtain rfl : p = q := Option.some.inj (hp.symm.trans hq)
      exact ⟨hget, hgen⟩
    cases hfind : (liveForeignLegs b).find? fun leg =>
        leg.venueOrderId = legVenueOrderId entryOrderId level generation with
    | none =>
      simp only [stageIn, hfind]
      refine ⟨fun leg hleg hgen halive => ?_, fun hopened => absurd rfl hopened⟩
      have hmem : leg ∈ liveForeignLegs b := mem_liveForeignLegs.mpr ⟨halive, x, p, level, hp, hleg⟩
      obtain ⟨e, hentry, hid⟩ := hasEntry_foreign (hb x p hp).1 hleg
      obtain rfl : e = entryOrderId := Option.some.inj (hentry.1.symm.trans hmine.1)
      exact absurd (hgen ▸ hid) (by simpa using List.find?_eq_none.mp hfind leg hmem)
    | some found =>
      obtain ⟨hget, hgen⟩ := hfound found (List.mem_of_find?_eq_some hfind)
        (by simpa using List.find?_some hfind)
      simp only [stageIn, hfind]
      refine ⟨fun leg hleg _ _ => ?_, fun _ => ⟨found, hget, hgen.ge⟩⟩
      rw [hget, Option.some.injEq] at hleg
      rw [hleg]
  unique x y p q hp hq hmine hmine' := held_unique hnodup hp hq hmine.held hmine'.held
  unused hnot := by
    have hnone : ∀ x p, b.positions.get? x = some p → ¬ HasEntry entryOrderId p :=
      fun x p hp hmine => hnot (mem_heldNames.mpr ⟨x, p, hp, hmine.held⟩)
    refine ⟨?_, hnone⟩
    have hfind : ((liveForeignLegs b).find? fun leg =>
        leg.venueOrderId = legVenueOrderId entryOrderId level generation) = none := by
      refine List.find?_eq_none.mpr fun leg hleg => ?_
      obtain ⟨-, x, p, l, hp, hget⟩ := mem_liveForeignLegs.mp hleg
      obtain ⟨e, hentry, hid⟩ := hasEntry_foreign (hb x p hp).1 hget
      have : leg.venueOrderId ≠ legVenueOrderId entryOrderId level generation := fun h =>
        hnone x p hp ((legVenueOrderId_injective (hid.symm.trans h)).1 ▸ hentry)
      simpa using this
    simp only [stageIn, hfind, foreignTracker]

/-! ## Every leg, over every run -/

/-- What a run tells of a leg leads it on from the stage it stood at. -/
theorem leads_of_run {b : Book} (hb : AllSound b) {operations : List Operation}
    (hnames : NamesDistinct b operations) (key : LegKey) :
    ∃ s, Leads (machine.Always TriggerWithin b operations) (stageIn b key)
      (newsOf key (machine.told b operations)) s := by
  obtain ⟨hheld, htaken, hapart⟩ := List.nodup_append.mp hnames
  have hfresh : ∀ name, name ∈ heldNames b → name ∉ namesTaken b operations :=
    fun name hname hname' => hapart name hname name hname' rfl
  cases key with
  | node clientOrderId => exact (node_tracks hb hheld clientOrderId).run (hfresh _) htaken
  | foreign venueOrderId =>
    by_cases hstray : ∀ entryOrderId level generation,
        legVenueOrderId entryOrderId level generation ≠ venueOrderId
    · have hfind : ((liveForeignLegs b).find? fun leg => leg.venueOrderId = venueOrderId) = none := by
        refine List.find?_eq_none.mpr fun leg hleg => ?_
        obtain ⟨-, x, p, l, hp, hget⟩ := mem_liveForeignLegs.mp hleg
        obtain ⟨e, -, hid⟩ := hasEntry_foreign (hb x p hp).1 hget
        simpa [hid] using hstray _ _ _
      have htracks : (strayTracker venueOrderId hstray).Tracks b
          (stageIn b (.foreign venueOrderId)) False :=
        { sound := hb
          matched := fun _ _ _ h => h.elim
          unique := fun _ _ _ _ _ _ h => h.elim
          unused := fun _ => ⟨by simp only [stageIn, hfind]; rfl, fun _ _ _ h => h⟩ }
      exact htracks.run False.elim htaken
    · push Not at hstray
      obtain ⟨entryOrderId, level, generation, rfl⟩ := hstray
      exact (foreign_tracks hb hheld entryOrderId level generation).run (hfresh _) htaken

/-- A living leg is not filled beyond its quantity, where a run starts. -/
theorem stageIn_covered {b : Book} (hb : AllSound b) {key : LegKey} {quantity filled : ℚ}
    (h : stageIn b key = .working quantity filled) : filled ≤ quantity := by
  cases key with
  | node clientOrderId =>
    simp only [stageIn] at h
    split at h
    case h_1 leg hfind =>
      obtain ⟨halive, x, p, level, hp, hleg⟩ := mem_liveLegs.mp (List.mem_of_find?_eq_some hfind)
      unfold Leg.stage at h
      split at h
      · cases h
        exact volumeToUnits_le.mpr ((hb x p hp).1.covered level leg hleg halive)
      · cases h
    case h_2 => cases h
  | foreign venueOrderId =>
    simp only [stageIn] at h
    split at h
    case h_1 leg hfind =>
      obtain ⟨halive, x, p, level, hp, hleg⟩ :=
        mem_liveForeignLegs.mp (List.mem_of_find?_eq_some hfind)
      cases h
      exact volumeToUnits_le.mpr ((hb x p hp).1.coveredForeign level leg hleg halive)
    case h_2 => cases h

end VenueBook

namespace Sample

open VenueBook

/-- The node's position from its entry to its close by hand. -/
def closedRun : List Operation :=
  [.apply env {} (entryFill nodeEntry),
    .apply env {} (protectiveEvent .orderAccepted 200 (some (.finite 90)) (some (.finite 120))),
    .apply env {} closingFill]

/-- The node's position from its entry to its stop-loss, which fills `volume`. -/
def triggeredRun (volume : ℕ) : List Operation :=
  [.apply env {} (entryFill nodeEntry),
    .apply env {} (protectiveEvent .orderAccepted 200 (some (.finite 100)) (some (.finite 120))),
    .apply env {} (trigger volume)]

/-- The cancel of an entry's remainder comes before its fill, which a query then finds. -/
def foundRun : List Operation :=
  [.apply env {} (event .orderAccepted nodeEntry (position 100 .created 0)),
    .apply env {} (event .orderCancelled nodeEntry (position 140 .created 0)),
    .apply env {} (protectiveEvent .orderAccepted 200 (some (.finite 90)) (some (.finite 120)) 400),
    .entryFound env 10 [nodeEntry],
    .apply env {} (protectiveEvent .orderReplaced 300 (some (.finite 91)) (some (.finite 120)) 400)]

end Sample

namespace VenueBook

/-- Over every run that gives no name twice, what is told of each leg is a legal lifecycle. -/
theorem leg_lifecycle {b : Book} (hb : Reachable b) (operations : List Operation)
    (hnames : NamesDistinct b operations) (key : LegKey) :
    (stageIn b key).Legal (newsOf key (machine.told b operations)) := by
  obtain ⟨s, hleads⟩ := leads_of_run hb.allSound hnames key
  exact Stage.legal_of_follow hleads.follow

/-- The leg of a position that is closed is accepted and cancelled. -/
theorem closed_leg_lifecycle :
    newsOf (.node "O-2") (machine.told {} Sample.closedRun) = [.accepted 10, .canceled] ∧
      (stageIn {} (.node "O-2")).Legal (newsOf (.node "O-2") (machine.told {} Sample.closedRun)) :=
  ⟨by decide +kernel, leg_lifecycle .new _ (by decide +kernel) _⟩

/-- `entry_found` takes an entry whose position was dropped, and its leg is accepted after its end. -/
theorem found_leg_relives : ¬ ∀ b, Reachable b → ∀ (operations : List Operation) (key : LegKey),
    (stageIn b key).Legal (newsOf key (machine.told b operations)) := by
  intro h
  have hnews : newsOf (.node "O-2") (machine.told {} Sample.foundRun) =
      [] ++ .canceled :: [.accepted 4] := by decide +kernel
  have hnothing := (h {} .new Sample.foundRun (.node "O-2")).nothing_after_end
    [] .canceled [.accepted 4] hnews trivial
  cases hnothing

/-- Where also every trigger is within its leg, no leg is filled beyond the quantity last told. -/
theorem leg_covered {b : Book} (hb : Reachable b) (operations : List Operation)
    (hnames : NamesDistinct b operations) (hwithin : machine.Always TriggerWithin b operations)
    (key : LegKey) : (stageIn b key).Covered (newsOf key (machine.told b operations)) := by
  obtain ⟨s, hleads⟩ := leads_of_run hb.allSound hnames key
  exact Stage.covered_of_allFit (fun _ _ h => stageIn_covered hb.allSound h) hleads.follow
    (hleads.allFit hwithin)

/-- The leg that is hit is accepted and filled. -/
theorem triggered_leg_covered :
    newsOf (.node "O-2") (machine.told {} (Sample.triggeredRun 1000)) =
        [.accepted 10, .filled 10] ∧
      (stageIn {} (.node "O-2")).Covered
        (newsOf (.node "O-2") (machine.told {} (Sample.triggeredRun 1000))) :=
  ⟨by decide +kernel, leg_covered .new _ (by decide +kernel) (by decide +kernel) _⟩

/-- A trigger of a raised position, applied before the protective order's new volume, fills more than
the leg was told to have. -/
theorem trigger_exceeds_leg : ¬ ∀ b, Reachable b → ∀ (operations : List Operation) (key : LegKey),
    (stageIn b key).Covered (newsOf key (machine.told b operations)) := by
  intro h
  have hnews : newsOf (.node "O-2") (machine.told {} (Sample.triggeredRun 1500)) =
      [.accepted 10, .filled 15] := by decide +kernel
  have hcovered := h {} .new (Sample.triggeredRun 1500) (.node "O-2")
  rw [hnews] at hcovered
  exact absurd (hcovered _ (List.prefix_refl _) 10 (by decide +kernel)) (by decide +kernel)

end VenueBook

end NautilusCtrader
