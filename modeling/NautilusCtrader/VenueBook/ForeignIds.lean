import NautilusCtrader.Common.Climbing
import NautilusCtrader.VenueBook.ClosedPosition
import NautilusCtrader.VenueBook.LegTracking

/-!
# The ids of foreign legs

Each level of a position the node did not open is told under an id with a generation, and a level set
again gets the next one. Between two loads no id is given twice: the generations of a level climb, since
a position with such legs keeps them and is never dropped, and each is one that Nautilus does not hold
closed. The search for a generation ends after at most as many steps as there are closed orders.
-/

namespace NautilusCtrader

open Common

/-! ## What the claims are about -/

/-- The id under which a record opens a leg of the position, if it does. -/
def openedId (positionId : ℤ) : Record → Option String
  | .externalOrder order =>
    if isLegId order.venueOrderId && order.venuePositionId = some (toString positionId) then
      some order.venueOrderId
    else none
  | _ => none

/-- The ids under which `records` open legs of the position, in order. -/
def openedIds (positionId : ℤ) (records : List Record) : List String :=
  records.filterMap (openedId positionId)

/-- `record` opens the leg of `level` of the position at `generation`. -/
def OpensLegAt (record : Record) (series : ℤ × Level) (generation : ℕ+) : Prop :=
  OpensLegOf series.1 record ∧ ∃ order entryOrderId, record = .externalOrder order ∧
    order.venueOrderId = legVenueOrderId entryOrderId series.2 generation

namespace VenueBook

/-- The venue order ids Nautilus holds as closed orders while a call is made. -/
def Operation.heldClosed : Operation → Finset String
  | .apply env _ _ => env.heldClosed
  | .trailingStopMoved env _ => env.heldClosed
  | .entryFound env _ _ => env.heldClosed
  | _ => ∅

/-! ## The search for a generation -/

end VenueBook

namespace ForeignLegs

/-- The generation `steps` after `generation`. -/
def later (generation : ℕ+) (steps : ℕ) : ℕ+ :=
  ⟨generation + steps, Nat.add_pos_left generation.pos steps⟩

/-- A search with fuel enough finds the first generation whose id is not held closed. -/
theorem firstOpenFrom_eq {heldClosed : Finset String} {entryOrderId : ℤ} {level : Level}
    {generation : ℕ+} {steps fuel : ℕ}
    (hopen : legVenueOrderId entryOrderId level (later generation steps) ∉ heldClosed)
    (hheld : ∀ earlier < steps,
      legVenueOrderId entryOrderId level (later generation earlier) ∈ heldClosed)
    (hfuel : steps ≤ fuel) :
    firstOpenFrom heldClosed entryOrderId level fuel generation = later generation steps := by
  have hzero (g : ℕ+) : later g 0 = g := rfl
  have hnext (g : ℕ+) (n : ℕ) : later (g + firstGeneration) n = later g (n + 1) := by
    refine PNat.eq ?_
    show (g : ℕ) + 1 + n = g + (n + 1)
    omega
  induction steps generalizing generation fuel with
  | zero =>
    rw [hzero] at hopen
    cases fuel with
    | zero => rfl
    | succ fuel => exact if_neg hopen
  | succ steps ih =>
    obtain ⟨fuel, rfl⟩ : ∃ n, fuel = n + 1 := ⟨fuel - 1, by omega⟩
    have hfirst := hheld 0 (Nat.succ_pos steps)
    rw [hzero] at hfirst
    unfold firstOpenFrom
    rw [if_pos hfirst, ih (by rwa [hnext]) (fun earlier hearlier => ?_) (by omega), hnext]
    rw [hnext]
    exact hheld (earlier + 1) (by omega)

/-- Of as many generations as there are closed orders, and one more, not all are held closed. -/
theorem exists_open (heldClosed : Finset String) (entryOrderId : ℤ) (level : Level)
    (generation : ℕ+) : ∃ steps ≤ heldClosed.card,
      legVenueOrderId entryOrderId level (later generation steps) ∉ heldClosed := by
  by_contra hall
  push Not at hall
  have hinjective : Function.Injective fun steps =>
      legVenueOrderId entryOrderId level (later generation steps) := by
    intro steps steps' h
    have hsame := congrArg PNat.val (legVenueOrderId_injective h).2.2
    have hsteps : (generation : ℕ) + steps = generation + steps' := hsame
    omega
  have hsubset : (Finset.range (heldClosed.card + 1)).image (fun steps =>
      legVenueOrderId entryOrderId level (later generation steps)) ⊆ heldClosed := by
    intro id hid
    obtain ⟨steps, hsteps, rfl⟩ := Finset.mem_image.mp hid
    have hlt := Finset.mem_range.mp hsteps
    exact hall steps (by omega)
  have hcard := Finset.card_le_card hsubset
  rw [Finset.card_image_of_injective _ hinjective, Finset.card_range] at hcard
  omega

/-- The search ends at the first generation, of those from `generation` on, whose id is not held
closed; it asks no more often than there are closed orders, and once. -/
theorem search_ends (heldClosed : Finset String) (entryOrderId : ℤ) (level : Level)
    (generation : ℕ+) : ∃ steps ≤ heldClosed.card,
      legVenueOrderId entryOrderId level (later generation steps) ∉ heldClosed ∧
      (∀ earlier < steps, legVenueOrderId entryOrderId level (later generation earlier) ∈ heldClosed) ∧
      ∀ fuel, steps ≤ fuel → firstOpenFrom heldClosed entryOrderId level fuel generation =
        later generation steps := by
  have hopen := exists_open heldClosed entryOrderId level generation
  obtain ⟨bound, hbound, hfound⟩ := hopen
  have hexists : ∃ steps,
      legVenueOrderId entryOrderId level (later generation steps) ∉ heldClosed := ⟨bound, hfound⟩
  have hheld : ∀ earlier < Nat.find hexists,
      legVenueOrderId entryOrderId level (later generation earlier) ∈ heldClosed :=
    fun earlier hearlier => not_not.mp (Nat.find_min hexists hearlier)
  refine ⟨Nat.find hexists, (Nat.find_min' hexists hfound).trans hbound, Nat.find_spec hexists,
    hheld, fun fuel hfuel => ?_⟩
  exact firstOpenFrom_eq (Nat.find_spec hexists) hheld hfuel

/-- The generation chosen for a new leg is one Nautilus does not hold closed. -/
theorem firstOpen_open (heldClosed : Finset String) (entryOrderId : ℤ) (level : Level)
    (generation : ℕ+) :
    legVenueOrderId entryOrderId level (firstOpen heldClosed entryOrderId level generation) ∉
      heldClosed := by
  obtain ⟨steps, hsteps, hopen, -, hsearch⟩ := search_ends heldClosed entryOrderId level generation
  unfold firstOpen
  rw [hsearch _ hsteps]
  exact hopen

end ForeignLegs

/-! ## The generations of a position climb -/

/-- The generations the legs of a position have come to, by level. -/
def Position.HasReached (p : Position) (series : ℤ × Level) (generation : ℕ+) : Prop :=
  p.positionId = series.1 ∧
    ∃ leg, p.foreignLegs.get? series.2 = some leg ∧ generation ≤ leg.generation

/-- The same for the positions of a book. -/
def Book.HasReached (b : Book) (series : ℤ × Level) (generation : ℕ+) : Prop :=
  ∃ p, b.positions.get? series.1 = some p ∧ p.HasReached series generation

namespace VenueBook

/-- A generation that is reached has those below it reached. -/
theorem reached_below (p : Position) (series : ℤ × Level) (generation lower : ℕ+)
    (h : p.HasReached series generation) (hle : lower ≤ generation) :
    p.HasReached series lower := by
  obtain ⟨hplace, leg, hleg, hreached⟩ := h
  exact ⟨hplace, leg, hleg, hle.trans hreached⟩

/-- A move opens legs only above the generations the position has come to. -/
theorem climbs_move {p q : Position} {act : Act} {told : List Record} (hmove : Move p act told q) :
    Climbs Position.HasReached OpensLegAt p told q := by
  have hsame {r : Position} (hplace : r.positionId = p.positionId)
      (hforeign : r.foreignLegs = p.foreignLegs) (series : ℤ × Level) (generation : ℕ+)
      (h : p.HasReached series generation) : r.HasReached series generation := by
    unfold Position.HasReached
    rwa [hplace, hforeign]
  have hquiet (hact : ∀ entryOrderId level, act ≠ .openForeign entryOrderId level) :
      ∀ record ∈ told, ∀ series generation, ¬ OpensLegAt record series generation := by
    intro record hrecord series generation h
    obtain ⟨-, entryOrderId, level, heq⟩ := opens_of_move hmove hrecord h.1
    exact hact entryOrderId level heq
  have hplace := move_positionId hmove
  cases hmove with
  | other hlegs _ =>
    exact .quiet (hsame hplace hlegs.foreignLegs) (hquiet fun _ _ => by rintro ⟨⟩)
  | take order _ _ =>
    exact .quiet (hsame hplace (adopt_entry p order false ∅).2.1) (hquiet fun _ _ => by rintro ⟨⟩)
  | takeEnded order _ _ =>
    exact .quiet (hsame hplace (adopt_entry p order false ∅).2.1) (hquiet fun _ _ => by rintro ⟨⟩)
  | endSilently => exact .quiet (hsame rfl rfl) (hquiet fun _ _ => by rintro ⟨⟩)
  | node => exact .quiet (hsame rfl rfl) (hquiet fun _ _ => by rintro ⟨⟩)
  | @foreign level leg record change hleg =>
    refine .quiet (fun series generation h => ?_) (hquiet fun _ _ => by rintro ⟨⟩)
    obtain ⟨hid, held, hheld, hle⟩ := h
    by_cases hlevel : level = series.2
    · subst hlevel
      obtain rfl := Option.some.inj (hleg.symm.trans hheld)
      refine ⟨hid, _, Dict.get?_set_self .., hle.trans (le_of_eq ?_)⟩
      cases change <;> rfl
    · exact ⟨hid, held, (Dict.get?_set_of_ne _ _ hlevel).trans hheld, hle⟩
  | @openForeign entryOrderId level leg record hentry _ _ hid hgeneration _ _ hopens =>
    obtain ⟨order, rfl, hvenue, hposition, -⟩ := hopens
    have hgives : ∀ series generation, OpensLegAt (.externalOrder order) series generation →
        p.positionId = series.1 ∧ series.2 = level ∧ generation = leg.generation := by
      rintro ⟨x, level'⟩ generation ⟨⟨order', heq, -, hposition'⟩, order'', entryOrderId', heq', hid'⟩
      cases heq
      cases heq'
      rw [hposition, Option.some.injEq, Int.toString_eq_repr, Int.toString_eq_repr] at hposition'
      have hsameId := hid'.symm.trans (hvenue.trans hid)
      obtain ⟨-, hlevel, hgen⟩ := legVenueOrderId_injective hsameId
      exact ⟨intRepr_injective (congrArg String.toList hposition'), hlevel, hgen⟩
    refine ⟨fun series generation h => ?_, fun output houtput series generation h => ?_,
      fun output houtput series generation h hreached => ?_, List.pairwise_singleton _ _⟩
    · obtain ⟨hown, held, hheld, hle⟩ := h
      by_cases hlevel : level = series.2
      · subst hlevel
        exact ⟨hown, leg, Dict.get?_set_self .., hle.trans (hgeneration held hheld).le⟩
      · exact ⟨hown, held, (Dict.get?_set_of_ne _ _ hlevel).trans hheld, hle⟩
    · obtain rfl := List.mem_singleton.mp houtput
      obtain ⟨hown, hlevel, rfl⟩ := hgives series generation h
      refine ⟨hown, leg, ?_, le_rfl⟩
      rw [hlevel]
      exact Dict.get?_set_self ..
    · obtain rfl := List.mem_singleton.mp houtput
      obtain ⟨-, hlevel, rfl⟩ := hgives series generation h
      obtain ⟨-, held, hheld, hle⟩ := hreached
      exact absurd (hgeneration held (hlevel ▸ hheld)) (not_lt.mpr hle)

/-- Moves open each series at a generation above those reached. -/
theorem climbs_moves {may : Act → Prop} {p q : Position} {told : List Record}
    (hmoves : Moves may p told q) : Climbs Position.HasReached OpensLegAt p told q := by
  induction hmoves with
  | refl p => exact .quiet (fun _ _ h => h) fun record hrecord => absurd hrecord List.not_mem_nil
  | cons hmove _ _ ih => exact (climbs_move hmove).trans reached_below ih

/-- A leg a position opens is named after an entry, at some level and generation. -/
theorem opensLegAt_of_moves {may : Act → Prop} {p q : Position} {told : List Record}
    (hmoves : Moves may p told q) {record : Record} (hrecord : record ∈ told) {positionId : ℤ}
    (h : OpensLegOf positionId record) :
    ∃ level generation, OpensLegAt record (positionId, level) generation := by
  induction hmoves with
  | refl p => exact absurd hrecord List.not_mem_nil
  | cons hmove _ _ ih =>
    rcases List.mem_append.mp hrecord with hmem | hmem
    · obtain ⟨-, entryOrderId, level, rfl⟩ := opens_of_move hmove hmem h
      cases hmove with
      | openForeign _ _ _ hid _ _ _ hopens =>
        obtain rfl := List.mem_singleton.mp hmem
        obtain ⟨order, rfl, hvenue, -⟩ := hopens
        exact ⟨level, _, h, order, entryOrderId, rfl, hvenue.trans hid⟩
    · exact ih hmem

/-! ## A position with foreign legs is never dropped -/

/-- A position keeps the entry it has learnt through any moves. -/
theorem moves_learnt {may : Act → Prop} {p q : Position} {told : List Record}
    (hmoves : Moves may p told q) (hentry : p.entryOrderId ≠ none) :
    q.entryOrderId = p.entryOrderId ∧ q.entryClientOrderId = p.entryClientOrderId := by
  induction hmoves with
  | refl p => exact ⟨rfl, rfl⟩
  | cons hmove _ _ ih =>
    obtain ⟨-, hid, hclient⟩ := move_learnt hmove hentry
    obtain ⟨hid', hclient'⟩ := ih (hid ▸ hentry)
    exact ⟨hid'.trans hid, hclient'.trans hclient⟩

/-- Only a position whose entry is the node's is dropped. -/
theorem dropped_ours (env : Env) (event : ProtoOAExecutionEvent) (order : ProtoOAOrder)
    (precision : ℕ) (f : Focus) :
    (openingOn env event order precision f).focus.stored = f.stored ∨
      (openingOn env event order precision f).focus.position.ours = true := by
  have hopened : (opened event order (takesEntry event order f.position) f).focus.stored =
      f.stored := (sync_place event order _).1
  have hfirst (next : Focus → Handled) :
      ((opened event order (takesEntry event order f.position) f).andThen next).focus =
        (next (opened event order (takesEntry event order f.position) f).focus).focus := rfl
  unfold openingOn
  dsimp only
  generalize opened event order (takesEntry event order f.position) f = h at hopened hfirst ⊢
  have hkeeps (k : Handled) (hk : k.focus.stored = f.stored) :
      (k.andThen (openedTail event order)).focus.stored = f.stored :=
    stored_andThen hk fun g => stored_andThen rfl fun g => stored_endIfClosed ..
  by_cases hown : h.focus.position.ours && h.focus.position.entryOrderId = some order.orderId
  · right
    have hown' := hown
    rw [Bool.and_eq_true, decide_eq_true_eq] at hown'
    have hrecords : openingRecords env event order precision (takesEntry event order f.position)
        h.focus = entryEvent env event order precision h.focus := if_pos hown
    have hdoes : Does (fun _ => True) h.focus (entryEvent env event order precision h.focus) :=
      does_entryEvent ..
    obtain ⟨-, -, told, hmoves, -⟩ := hdoes
    rw [← hrecords, ← hfirst] at hmoves
    have hentry : h.focus.position.entryOrderId ≠ none := by
      rw [hown'.2]
      exact Option.some_ne_none _
    have hcond (q : Position) (told : List Record)
        (hmoves : Moves (fun _ => True) h.focus.position told q) : q.ours = true := by
      unfold Position.ours
      rw [(moves_learnt hmoves hentry).2]
      exact hown'.1
    generalize h.andThen (openingRecords env event order precision
      (takesEntry event order f.position)) = k at hmoves ⊢
    rcases Handled.andThen_focus k (openedTail event order) with heq | heq
    · rw [heq]
      exact hcond _ told hmoves
    · have htail : Does (fun _ => True) k.focus (openedTail event order k.focus) :=
        does_openedTail ..
      obtain ⟨-, -, told', hmoves', -⟩ := htail
      rw [heq]
      exact hcond _ (told ++ told') (hmoves.trans hmoves')
  · left
    refine hkeeps _ ?_
    rw [hfirst]
    have hrecords : openingRecords env event order precision (takesEntry event order f.position)
        h.focus = openedExternal env event order precision (takesEntry event order f.position)
          h.focus := if_neg hown
    rw [hrecords]
    exact (stored_andThen (externalEvent_stored ..) fun _ => rfl).trans hopened

/-! ## The generations of the book climb -/

/-- In a book too, the generations below are reached. -/
theorem reachedIn_below (b : Book) (series : ℤ × Level) (generation lower : ℕ+)
    (h : b.HasReached series generation) (hle : lower ≤ generation) :
    b.HasReached series lower := by
  obtain ⟨p, hp, hreached⟩ := h
  exact ⟨p, hp, reached_below p series generation lower hreached hle⟩

/-- A position that is the node's has opened no foreign legs. -/
theorem Sound.not_reached {p : Position} (h : Sound p) (hours : p.ours = true)
    (series : ℤ × Level) (generation : ℕ+) : ¬ p.HasReached series generation := by
  rintro ⟨-, leg, hleg, -⟩
  have hclient : p.entryClientOrderId ≠ none := Option.ne_none_iff_isSome.mpr hours
  rw [h.foreignLegs hclient] at hleg
  cases hleg

/-- Moves on a position that stays. -/
theorem climbs_of_moved {may : Act → Prop} {b b' : Book} {x : ℤ} {p q : Position}
    {moved told : List Record} (hplace : p.positionId = x) (hp : b.positions.get? x = some p)
    (hmoves : Moves may p moved q) (hq : b'.positions.get? x = some q)
    (hothers : ∀ y, y ≠ x → b'.positions.get? y = b.positions.get? y) (htold : Tells told moved) :
    Climbs Book.HasReached OpensLegAt b told b' := by
  have hclimbs := climbs_moves hmoves
  have hmem : ∀ record ∈ told, record ∈ moved := by
    intro record hrecord
    rcases htold with rfl | ⟨rfl, -⟩
    · exact hrecord
    · exact absurd hrecord List.not_mem_nil
  have hown : ∀ record ∈ told, ∀ series generation, OpensLegAt record series generation →
      series.1 = x := by
    intro record hrecord series generation h
    have hreached := hclimbs.given record (hmem record hrecord) series generation h
    exact hreached.1.symm.trans ((moves_positionId hmoves).trans hplace)
  refine ⟨fun series generation h => ?_, fun record hrecord series generation h => ?_,
    fun record hrecord series generation h hreached => ?_, ?_⟩
  · obtain ⟨r, hr, hreached⟩ := h
    by_cases hx : series.1 = x
    · rw [hx] at hr
      obtain rfl := Option.some.inj (hp.symm.trans hr)
      exact ⟨q, hx ▸ hq, hclimbs.grown series generation hreached⟩
    · exact ⟨r, (hothers _ hx).trans hr, hreached⟩
  · have hx := hown record hrecord series generation h
    exact ⟨q, hx ▸ hq, hclimbs.given record (hmem record hrecord) series generation h⟩
  · have hx := hown record hrecord series generation h
    obtain ⟨r, hr, hreached⟩ := hreached
    rw [hx] at hr
    obtain rfl := Option.some.inj (hp.symm.trans hr)
    exact hclimbs.fresh record (hmem record hrecord) series generation h hreached
  · rcases htold with rfl | ⟨rfl, -⟩
    · exact hclimbs.increasing
    · exact List.Pairwise.nil

/-- A handler of an event climbs, if it drops only positions that are the node's and opens no leg of a
position just made. -/
theorem climbs_of_does {may : Act → Prop} {b : Book} {event : ProtoOAExecutionEvent}
    {order : ProtoOAOrder} {h : Handled} (hb : AllSound b)
    (hdoes : Does may (positionFor b event order) h)
    (hnew : (positionFor b event order).position = newPosition event order →
      ∀ entryOrderId level, ¬ may (.openForeign entryOrderId level))
    (hdrop : h.focus.stored = (positionFor b event order).stored ∨ h.focus.position.ours = true) :
    Climbs Book.HasReached OpensLegAt b (recordsOf h.records) h.focus.finish := by
  obtain ⟨-, hplace, moved, hmoves, htold⟩ := hdoes
  replace htold := tells_recordsOf htold
  have hmem : ∀ record ∈ recordsOf h.records, record ∈ moved := by
    intro record hrecord
    rcases htold with heq | ⟨heq, -⟩
    · exact heq ▸ hrecord
    · rw [heq] at hrecord
      exact absurd hrecord List.not_mem_nil
  -- a position just made opens no leg
  have hquiet (hp : (positionFor b event order).position = newPosition event order) :
      ∀ record ∈ recordsOf h.records, ∀ series generation,
        ¬ OpensLegAt record series generation := by
    intro record hrecord series generation hopens
    obtain ⟨-, entryOrderId, level, hact⟩ := opens_of_moves hmoves (hmem record hrecord) hopens.1
    exact hnew hp entryOrderId level hact
  -- the event names no position, one that is held, or a new one
  rcases positionFor_cases b event order with ⟨hid, hf⟩ | ⟨x, p, hid, hp, hf⟩ | ⟨x, hid, hp, hf⟩ <;>
    rw [hf] at hplace hmoves hdrop hquiet
  · refine .quiet (fun series generation hreached => ?_) (hquiet rfl)
    rcases hplace with ⟨hstored, hpositions⟩ | ⟨_, hstored, -, -⟩
    · obtain ⟨r, hr, hreached⟩ := hreached
      refine ⟨r, ?_, hreached⟩
      simp only [Focus.finish, hstored, hpositions]
      exact hr
    · cases hstored
  · obtain ⟨hsound, hown⟩ := hb x p hp
    rcases hplace with ⟨hstored, hpositions⟩ | ⟨y, hstored, hnone, hpositions⟩
    · refine climbs_of_moved hown hp hmoves ?_ (fun y hy => ?_) htold
      · simp only [Focus.finish, hstored, Dict.get?_set_self]
      · simp only [Focus.finish, hstored, hpositions, Dict.get?_set_of_ne _ _ (Ne.symm hy)]
    · cases hstored
      have hours : h.focus.position.ours = true := by
        refine hdrop.resolve_left fun heq => ?_
        rw [hnone] at heq
        cases heq
      have hclimbs := climbs_moves hmoves
      -- a position that is dropped is the node's, and those have no foreign legs
      have hnot := Sound.not_reached (sound_moves hsound hmoves) hours
      refine .quiet (fun series generation hreached => ?_)
        fun record hrecord series generation hopens => ?_
      · obtain ⟨r, hr, hreached⟩ := hreached
        by_cases hx : series.1 = x
        · rw [hx] at hr
          obtain rfl := Option.some.inj (hp.symm.trans hr)
          exact absurd (hclimbs.grown series generation hreached) (hnot series generation)
        · refine ⟨r, ?_, hreached⟩
          simp only [Focus.finish, hnone, hpositions, Dict.get?_erase, if_neg hx]
          exact hr
      · exact hnot series generation
          (hclimbs.given record (hmem record hrecord) series generation hopens)
  · refine .quiet (fun series generation hreached => ?_) (hquiet rfl)
    obtain ⟨r, hr, hreached⟩ := hreached
    have hx : series.1 ≠ x := by
      rintro hx
      rw [hx, hp] at hr
      cases hr
    refine ⟨r, ?_, hreached⟩
    rcases hplace with ⟨hstored, hpositions⟩ | ⟨y, hstored, hnone, hpositions⟩
    · simp only [Focus.finish, hstored, hpositions, Dict.get?_set_of_ne _ _ (Ne.symm hx)]
      exact hr
    · cases hstored
      simp only [Focus.finish, hnone, hpositions, Dict.get?_erase, if_neg hx,
        Dict.get?_set_of_ne _ _ (Ne.symm hx)]
      exact hr

/-- Only the positions matter. -/
theorem climbs_congr {b b' b'' : Book} {told : List Record}
    (h : Climbs Book.HasReached OpensLegAt b told b') (hpositions : b''.positions = b'.positions) :
    Climbs Book.HasReached OpensLegAt b told b'' := by
  have hsame (series : ℤ × Level) (generation : ℕ+) (h : b'.HasReached series generation) :
      b''.HasReached series generation := by
    unfold Book.HasReached
    rwa [hpositions]
  exact ⟨fun _ _ hreached => hsame _ _ (h.grown _ _ hreached),
    fun record hrecord _ _ hopens => hsame _ _ (h.given record hrecord _ _ hopens), h.fresh,
    h.increasing⟩

/-- A book that is left opens nothing. -/
theorem climbs_still (b : Book) : Climbs Book.HasReached OpensLegAt b [] b :=
  .quiet (fun _ _ h => h) fun _ hrecord => absurd hrecord List.not_mem_nil

/-- Handling an event climbs. -/
theorem climbs_handle {b : Book} (hb : AllSound b) (env : Env) (ops : Operations)
    (event : ProtoOAExecutionEvent) (order : ProtoOAOrder) :
    Climbs Book.HasReached OpensLegAt b (recordsOf (handle env ops b event order).2)
      (handle env ops b event order).1 := by
  unfold handle
  split
  · have htold := legless_unloadedActivity event order
    refine climbs_congr ?_ (trackUnloaded_orders event order b).2
    split
    · have hsync : Does (fun _ => False) (positionFor b event order)
          ((sync event order (positionFor b event order)).tell (unloadedActivity event order)) :=
        does_sync event order (.tell htold)
      exact climbs_of_does hb hsync (fun _ _ _ h => h) (.inl (sync_place event order _).1)
    · exact .quiet (fun _ _ h => h) fun record hrecord series _ h =>
        not_opens_of_legless htold series.1 record hrecord h.1
  · rename_i precision hprecision
    dsimp only
    have hdrop : (handleLoaded env ops b event order precision).focus.stored =
          (positionFor b event order).stored ∨
        (handleLoaded env ops b event order precision).focus.position.ours = true ∨
        handleLoaded env ops b event order precision =
          ⟨⟨b, (positionFor b event order).position, none⟩, .ok []⟩ := by
      unfold handleLoaded
      dsimp only
      split
      · exact .inl (stored_protectiveOn ..)
      · split
        · exact .inl (stored_closingOn ..)
        · split
          · exact .inr (.inr rfl)
          · exact (dropped_ours ..).imp_right .inl
    rcases does_handleLoaded env ops b event order precision with h | h
    · rw [h]
      exact climbs_still b
    · have hnew : (positionFor b event order).position = newPosition event order →
          ∀ entryOrderId level, ¬ EventMay env b event order precision
            (positionFor b event order).position (.openForeign entryOrderId level) := by
        intro hp entryOrderId level hact
        rw [hp] at hact
        cases hact with
        | openTaken _ _ _ _ hlevel => cases level <;> cases hlevel
        | openProtective _ _ _ _ hentry _ => cases hentry
      rcases hdrop with hstored | hours | hnothing
      · exact climbs_of_does hb h hnew (.inl hstored)
      · exact climbs_of_does hb h hnew (.inr hours)
      · rw [hnothing]
        exact climbs_still b

/-- A change of one position climbs. -/
theorem climbs_onPosition {b : Book} (hb : AllSound b) {x : ℤ}
    {change : Position → Position × List Record}
    (h : ∀ p, b.positions.get? x = some p →
      Moves (fun _ => True) p (change p).2 (change p).1) :
    Climbs Book.HasReached OpensLegAt b (onPosition b x change).2 (onPosition b x change).1 := by
  unfold onPosition
  split
  · exact climbs_still b
  · rename_i p hp
    exact climbs_of_moved (hb x p hp).2 hp (h p hp) (Dict.get?_set_self ..)
      (fun y hy => Dict.get?_set_of_ne _ _ (Ne.symm hy)) (.inl rfl)

/-- A trailing stop climbs. -/
theorem climbs_trailingStopMoved {b : Book} (hb : AllSound b) (env : Env)
    (event : ProtoOATrailingSLChangedEvent) :
    Climbs Book.HasReached OpensLegAt b (recordsOf (trailingStopMoved env b event).2)
      (trailingStopMoved env b event).1 := by
  unfold trailingStopMoved
  split
  · exact climbs_still b
  · rename_i p hp
    dsimp only
    split
    · exact climbs_still b
    · split
      · exact climbs_still b
      · split
        · exact climbs_still b
        · split
          · exact climbs_congr (climbs_still b) rfl
          · split
            · exact climbs_still b
            · rename_i stopLoss _
              have htrail : Moves (fun _ => True) p []
                  (trail stopLoss event.utcLastUpdateTimestamp p) :=
                .of_same ⟨rfl, rfl, rfl, rfl, rfl, id⟩ .nil
              refine climbs_of_moved (hb _ p hp).2 hp (htrail.trans ?_) (Dict.get?_set_self ..)
                (fun y hy => Dict.get?_set_of_ne _ _ (Ne.symm hy)) (.inl rfl)
              split
              · exact moves_levelChanges ..
              · rename_i hours
                have hforeign : p.ours = false := by simpa using hours
                exact ForeignLegs.moves_levelChanges hforeign fun _ _ _ _ => trivial

/-- A call opens legs only above the generations the book has come to. -/
theorem climbs_perform {b : Book} (hb : AllSound b) (operation : Operation) :
    Climbs Book.HasReached OpensLegAt b (recordsOf (perform b operation).2)
      (perform b operation).1 := by
  cases operation with
  | apply env ops event =>
    show Climbs _ _ b (recordsOf (apply env ops b event).2) (apply env ops b event).1
    rcases apply_cases env ops b event with ⟨order, h⟩ | h
    · have hclimbs := climbs_handle hb env ops event order
      rw [apply_of_handles h]
      split
      · rename_i failure herror
        rwa [herror] at hclimbs
      · rename_i records hok
        rw [hok] at hclimbs
        exact climbs_congr hclimbs (markApplied_positions ..)
    · rw [h]
      exact climbs_still b
  | trailingStopMoved env event => exact climbs_trailingStopMoved hb env event
  | entryFound env positionId orders =>
    exact climbs_onPosition hb fun p _ => moves_foundEntry (fun _ _ _ => trivial)
      fun _ _ _ _ _ => trivial
  | cancelLeg positionId level ts => exact climbs_onPosition hb fun p _ => moves_canceledLeg level ts p
  | rejectLegs positionId reason ts =>
    exact climbs_onPosition hb fun p _ => moves_rejectedLegs reason ts p
  | matchClose orderId positionId closeId =>
    refine climbs_congr (climbs_still b) ?_
    show (matchClose b orderId positionId closeId).positions = b.positions
    unfold matchClose
    split <;> rfl
  | endKeep positionId => exact climbs_congr (climbs_still b) rfl
  | closedInReconciliation positionIds => exact climbs_congr (climbs_still b) rfl

/-- So does a whole run. -/
theorem climbs_run {b : Book} (hb : AllSound b) (operations : List Operation) :
    Climbs Book.HasReached OpensLegAt b (machine.told b operations) (machine.after b operations) :=
  Climbs.run (m := machine) reachedIn_below (fun _ operation h => allSound_perform h operation)
    (fun _ operation h => climbs_perform h operation) hb operations

/-- A leg the book opens is named after an entry, at some level and generation. -/
theorem opensLegAt_perform {b : Book} (operation : Operation) {record : Record}
    (hrecord : record ∈ recordsOf (perform b operation).2) {positionId : ℤ}
    (h : OpensLegOf positionId record) :
    ∃ level generation, OpensLegAt record (positionId, level) generation := by
  have htells {p q : Position} {moved : List Record}
      (hmoves : Moves (OpMay b operation) p moved q)
      (htold : Tells (recordsOf (perform b operation).2) moved) :
      ∃ level generation, OpensLegAt record (positionId, level) generation := by
    rcases htold with heq | ⟨heq, -⟩
    · exact opensLegAt_of_moves hmoves (heq ▸ hrecord) h
    · rw [heq] at hrecord
      exact absurd hrecord List.not_mem_nil
  cases perform_changes b operation with
  | idle _ htold => exact absurd h (not_opens_of_legless htold positionId record hrecord)
  | moved _ hmoves _ _ htold => exact htells hmoves htold
  | dropped _ hmoves _ _ htold => exact htells hmoves htold
  | passing _ hmoves _ htold => exact htells hmoves htold

/-! ## No leg is opened under an id held closed -/

/-- `records` open no leg under an id of `heldClosed`. -/
structure OpensFresh (heldClosed : Finset String) (records : List Record) : Prop where
  notHeld : ∀ record ∈ records, ∀ positionId order, OpensLegOf positionId record →
    record = .externalOrder order → order.venueOrderId ∉ heldClosed

/-- What a handler tells, unless it raises, opens no leg under an id of `heldClosed`. -/
def FreshHandled (heldClosed : Finset String) (h : Handled) : Prop :=
  OpensFresh heldClosed (recordsOf h.records)

/-- The moves of rules that open no leg of a foreign position. -/
def NeverOpens (act : Act) : Prop := ∀ entryOrderId level, act ≠ .openForeign entryOrderId level

section

variable {heldClosed : Finset String}

/-- Records about no leg open none that is held closed. -/
theorem fresh_of_legless {told : List Record} (h : Legless told) : OpensFresh heldClosed told :=
  ⟨fun record hrecord positionId _ hopens =>
    absurd hopens (not_opens_of_legless h positionId record hrecord)⟩

/-- Nor do two lists of records that open none. -/
theorem OpensFresh.append {told later : List Record} (h : OpensFresh heldClosed told)
    (h' : OpensFresh heldClosed later) : OpensFresh heldClosed (told ++ later) := by
  refine ⟨fun record hrecord positionId order hopens heq => ?_⟩
  rcases List.mem_append.mp hrecord with hmem | hmem
  · exact h.notHeld record hmem positionId order hopens heq
  · exact h'.notHeld record hmem positionId order hopens heq

/-- Nor do moves that never open. -/
theorem fresh_of_moves {p q : Position} {told : List Record} (hmoves : Moves NeverOpens p told q) :
    OpensFresh heldClosed told := by
  refine ⟨fun record hrecord positionId order hopens _ => ?_⟩
  obtain ⟨-, entryOrderId, level, hact⟩ := opens_of_moves hmoves hrecord hopens
  exact absurd rfl (hact entryOrderId level)

/-- Nor does a handler that never opens. -/
theorem fresh_of_does {f : Focus} {h : Handled} (hdoes : Does NeverOpens f h) :
    FreshHandled heldClosed h := by
  obtain ⟨-, -, moved, hmoves, htold⟩ := hdoes
  rcases tells_recordsOf htold with heq | ⟨heq, -⟩
  · unfold FreshHandled
    rw [heq]
    exact fresh_of_moves hmoves
  · unfold FreshHandled
    rw [heq]
    exact fresh_of_legless .nil

/-- Nor do two handlers. -/
theorem fresh_andThen {h : Handled} {next : Focus → Handled} (hh : FreshHandled heldClosed h)
    (hnext : ∀ g, FreshHandled heldClosed (next g)) : FreshHandled heldClosed (h.andThen next) := by
  unfold FreshHandled at hh ⊢
  unfold Handled.andThen
  cases hrecords : h.records with
  | error failure => exact fresh_of_legless .nil
  | ok told =>
    rw [hrecords] at hh
    have hlater := hnext h.focus
    unfold FreshHandled at hlater
    show OpensFresh heldClosed (recordsOf (Except.map (told ++ ·) (next h.focus).records))
    cases hdone : (next h.focus).records with
    | error failure => exact fresh_of_legless .nil
    | ok later =>
      rw [hdone] at hlater
      exact OpensFresh.append hh hlater

/-- A new leg is of a generation that is not held closed. -/
theorem fresh_newLeg (entryOrderId : ℤ) (p : Position) (level : Level) (price : ℚ) (ts : ℤ) :
    OpensFresh heldClosed (ForeignLegs.newLeg heldClosed entryOrderId p level price ts).2 := by
  refine ⟨fun record hrecord positionId order _ heq => ?_⟩
  obtain rfl := List.mem_singleton.mp hrecord
  cases heq
  exact ForeignLegs.firstOpen_open heldClosed entryOrderId level _

/-- A foreign level that changes opens such legs only. -/
theorem fresh_foreignChange (entryOrderId : ℤ) (oldLevels : Levels) (ts : ℤ) (p : Position)
    (level : Level) : OpensFresh heldClosed
      (ForeignLegs.levelChange heldClosed entryOrderId oldLevels ts p level).2 := by
  have hevent (event : OrderEvent) : OpensFresh heldClosed [.orderEvent event] := by
    refine ⟨fun record hrecord positionId order _ heq => ?_⟩
    obtain rfl := List.mem_singleton.mp hrecord
    cases heq
  unfold ForeignLegs.levelChange
  split
  · exact fresh_newLeg ..
  · exact hevent _
  · split
    · exact fresh_of_legless .nil
    · exact hevent _
  · exact fresh_of_legless .nil

/-- So do both levels. -/
theorem fresh_foreignChanges (oldLevels : Levels) (ts : ℤ) (p : Position) :
    OpensFresh heldClosed (ForeignLegs.levelChanges heldClosed oldLevels ts p).2 := by
  unfold ForeignLegs.levelChanges
  split
  · exact fresh_of_moves (ForeignLegs.moves_entryUnknown p)
  · refine .append (.append ?_ ?_) (fresh_of_moves (ForeignLegs.moves_resizeLegs ..))
    · exact fresh_foreignChange ..
    · exact fresh_foreignChange ..

/-! ## The handlers -/

/-- So does a protective order that changes. -/
theorem fresh_protectiveChanged (env : Env) (ops : Operations) (event : ProtoOAExecutionEvent)
    (order : ProtoOAOrder) (oldLevels : Levels) (f : Focus) :
    FreshHandled env.heldClosed (protectiveChanged env ops event order oldLevels f) := by
  unfold protectiveChanged FreshHandled
  dsimp only [Focus.tell, recordsOf]
  split
  · exact fresh_of_moves (moves_levelChanges ..)
  · exact fresh_foreignChanges ..

/-- So does a protective event. -/
theorem fresh_protectiveOn (env : Env) (ops : Operations) (event : ProtoOAExecutionEvent)
    (order : ProtoOAOrder) (precision : ℕ) (f : Focus) :
    FreshHandled env.heldClosed (protectiveOn env ops event order precision f) := by
  unfold protectiveOn
  dsimp only
  split
  · refine fresh_andThen (fresh_of_legless (.ite (.single rfl) .nil)) fun g => ?_
    exact fresh_of_does (does_triggered (fun _ _ _ _ _ _ _ _ => by rintro ⟨⟩)
      (fun _ _ _ _ => by rintro ⟨⟩))
  · split
    · exact fresh_of_legless .nil
    · split
      · exact fresh_of_legless .nil
      · split
        · split
          · exact fresh_of_legless .nil
          · exact fresh_protectiveChanged ..
        · split
          · exact fresh_protectiveChanged ..
          · exact fresh_of_legless .nil

/-- So does an opening by somebody else. -/
theorem fresh_openedExternal (env : Env) (event : ProtoOAExecutionEvent) (order : ProtoOAOrder)
    (precision : ℕ) (learnt : Bool) (f : Focus) :
    FreshHandled env.heldClosed (openedExternal env event order precision learnt f) := by
  refine fresh_andThen (fresh_of_does (does_externalEvent ..)) fun g => ?_
  dsimp only
  refine OpensFresh.append (fresh_of_legless (.ite (.single rfl) .nil)) ?_
  split
  · exact fresh_foreignChanges ..
  · exact fresh_of_legless .nil

/-- So does an opening event. -/
theorem fresh_openingOn (env : Env) (event : ProtoOAExecutionEvent) (order : ProtoOAOrder)
    (precision : ℕ) (f : Focus) :
    FreshHandled env.heldClosed (openingOn env event order precision f) := by
  unfold openingOn
  dsimp only
  refine fresh_andThen (fresh_andThen ?_ fun g => ?_) fun g => fresh_of_does (does_openedTail ..)
  · exact fresh_of_legless (legless_opened event order _ f _ rfl)
  · unfold openingRecords
    split
    · exact fresh_of_does (does_entryEvent ..)
    · exact fresh_openedExternal ..

/-- So does every event. -/
theorem fresh_handle (env : Env) (ops : Operations) (b : Book) (event : ProtoOAExecutionEvent)
    (order : ProtoOAOrder) :
    OpensFresh env.heldClosed (recordsOf (handle env ops b event order).2) := by
  unfold handle
  split
  · exact fresh_of_legless (legless_unloadedActivity event order)
  · dsimp only
    unfold handleLoaded
    dsimp only
    split
    · exact fresh_protectiveOn ..
    · split
      · exact fresh_of_does (does_closingOn ..)
      · split
        · exact fresh_of_legless .nil
        · exact fresh_openingOn ..

end

/-- No call opens a leg under an id that Nautilus holds closed while it is made. -/
theorem fresh_perform (b : Book) (operation : Operation) :
    OpensFresh operation.heldClosed (recordsOf (perform b operation).2) := by
  -- legs are opened by moves alone, which ask what is held closed
  cases operation with
  | apply env ops event =>
    show OpensFresh env.heldClosed (recordsOf (apply env ops b event).2)
    rcases apply_cases env ops b event with ⟨order, h⟩ | h
    · have hfresh := fresh_handle env ops b event order
      rw [apply_of_handles h]
      split
      · exact fresh_of_legless .nil
      · rename_i records hok
        rwa [hok] at hfresh
    · rw [h]
      exact fresh_of_legless .nil
  | trailingStopMoved env event =>
    show OpensFresh env.heldClosed (recordsOf (trailingStopMoved env b event).2)
    unfold trailingStopMoved
    split
    · exact fresh_of_legless .nil
    · dsimp only
      split
      · exact fresh_of_legless .nil
      · split
        · exact fresh_of_legless .nil
        · split
          · exact fresh_of_legless .nil
          · split
            · exact fresh_of_legless .nil
            · split
              · exact fresh_of_legless .nil
              · dsimp only [recordsOf]
                split
                · exact fresh_of_moves (moves_levelChanges ..)
                · exact fresh_foreignChanges ..
  | entryFound env positionId orders =>
    show OpensFresh env.heldClosed (onPosition b positionId (foundEntry env.heldClosed orders)).2
    unfold onPosition
    split
    · exact fresh_of_legless .nil
    · rename_i p _
      dsimp only
      unfold foundEntry
      split
      · dsimp only
        split
        · exact fresh_of_legless (legless_adopt ..)
        · exact (fresh_of_legless (legless_adopt ..)).append (fresh_foreignChanges ..)
      · exact fresh_of_legless .nil
  | cancelLeg positionId level ts =>
    show OpensFresh ∅ (onPosition b positionId (canceledLeg level ts)).2
    unfold onPosition
    split
    · exact fresh_of_legless .nil
    · exact fresh_of_moves (moves_canceledLeg level ts _)
  | rejectLegs positionId reason ts =>
    show OpensFresh ∅ (onPosition b positionId (rejectedLegs reason ts)).2
    unfold onPosition
    split
    · exact fresh_of_legless .nil
    · exact fresh_of_moves (moves_rejectedLegs reason ts _)
  | matchClose orderId positionId closeId => exact fresh_of_legless .nil
  | endKeep positionId => exact fresh_of_legless .nil
  | closedInReconciliation positionIds => exact fresh_of_legless .nil

/-! ## Ids are used once -/

/-- An id that is opened is that of a leg's own record. -/
theorem openedId_eq_some {positionId : ℤ} {record : Record} {id : String}
    (h : openedId positionId record = some id) : OpensLegOf positionId record ∧
      ∃ order, record = .externalOrder order ∧ order.venueOrderId = id := by
  cases record with
  | externalOrder order =>
    unfold openedId at h
    simp only [Option.ite_none_right_eq_some, Bool.and_eq_true, decide_eq_true_eq,
      Option.some.injEq] at h
    obtain ⟨⟨hleg, hplace⟩, hid⟩ := h
    exact ⟨⟨order, rfl, hleg, hplace⟩, order, rfl, hid⟩
  | _ => cases h

/-- A leg's id is opened at its generation. -/
theorem opensLegAt_of_openedId {positionId : ℤ} {record : Record} {level : Level}
    {entryOrderId : ℤ} {generation : ℕ+}
    (h : openedId positionId record = some (legVenueOrderId entryOrderId level generation)) :
    OpensLegAt record (positionId, level) generation := by
  obtain ⟨hopens, order, heq, hid⟩ := openedId_eq_some h
  exact ⟨hopens, order, entryOrderId, heq, hid⟩

/-- Every id under which the book opens a leg is one of an entry's level, at some generation. -/
theorem openedId_run {b : Book} {operations : List Operation} {record : Record}
    (hrecord : record ∈ machine.told b operations) {positionId : ℤ} {id : String}
    (h : openedId positionId record = some id) :
    ∃ entryOrderId level generation, id = legVenueOrderId entryOrderId level generation := by
  have hnamed : ∀ record ∈ machine.told b operations, ∀ id, openedId positionId record = some id →
      ∃ entryOrderId level generation, id = legVenueOrderId entryOrderId level generation := by
    refine Machine.told_invariant (I := fun told _ => ∀ record ∈ told, ∀ id,
      openedId positionId record = some id →
        ∃ entryOrderId level generation, id = legVenueOrderId entryOrderId level generation)
      (fun told b operation ih record hrecord id hid => ?_)
      (fun record hrecord => absurd hrecord List.not_mem_nil) operations
    rcases List.mem_append.mp hrecord with hmem | hmem
    · exact ih record hmem id hid
    · obtain ⟨hopens, order, heq, hvenue⟩ := openedId_eq_some hid
      obtain ⟨level, generation, -, order', entryOrderId, heq', hid'⟩ :=
        opensLegAt_perform operation hmem hopens
      cases heq.symm.trans heq'
      exact ⟨entryOrderId, level, generation, hvenue.symm.trans hid'⟩
  exact hnamed record hrecord id h

/-- The ids of one position's legs, of one level, are opened at increasing generations. -/
theorem openedIds_increase {b : Book} (hb : AllSound b) (operations : List Operation)
    (positionId : ℤ) :
    (openedIds positionId (machine.told b operations)).Pairwise fun id later =>
      ∀ level entryOrderId entryOrderId' generation generation',
        id = legVenueOrderId entryOrderId level generation →
        later = legVenueOrderId entryOrderId' level generation' → generation < generation' := by
  refine List.pairwise_filterMap.mpr ((climbs_run hb operations).increasing.imp ?_)
  intro record record' hless id hid later hlater level entryOrderId entryOrderId' generation
    generation' heq heq'
  subst heq heq'
  exact hless _ _ _ (opensLegAt_of_openedId hid) (opensLegAt_of_openedId hlater)

/-- So no id is opened twice. -/
theorem openedIds_nodup {b : Book} (hb : AllSound b) (operations : List Operation)
    (positionId : ℤ) : (openedIds positionId (machine.told b operations)).Nodup := by
  refine (openedIds_increase hb operations positionId).imp_of_mem ?_
  intro id later hid _ hless hsame
  obtain ⟨record, hrecord, hopened⟩ := List.mem_filterMap.mp hid
  obtain ⟨entryOrderId, level, generation, rfl⟩ := openedId_run hrecord hopened
  exact lt_irrefl generation (hless level _ _ generation generation rfl hsame.symm)

/-- Between two loads, whatever the calls: the generations at which the legs of one level of a position
are opened increase, no id is opened twice, and none that Nautilus holds closed while the call is made.
The search for a generation ends, however many orders Nautilus holds closed. -/
theorem foreign_ids_once :
    (∀ b, Reachable b → ∀ operations positionId,
      (openedIds positionId (machine.told b operations)).Nodup ∧
      (openedIds positionId (machine.told b operations)).Pairwise fun id later =>
        ∀ level entryOrderId entryOrderId' generation generation',
          id = legVenueOrderId entryOrderId level generation →
          later = legVenueOrderId entryOrderId' level generation' → generation < generation') ∧
    (∀ b operation positionId, ∀ id ∈ openedIds positionId (machine.step b operation).2,
      id ∉ operation.heldClosed ∧
        ∃ entryOrderId level generation, id = legVenueOrderId entryOrderId level generation) ∧
    ∀ heldClosed entryOrderId level generation, ∃ steps ≤ heldClosed.card,
      legVenueOrderId entryOrderId level (ForeignLegs.later generation steps) ∉ heldClosed ∧
      (∀ earlier < steps, legVenueOrderId entryOrderId level
        (ForeignLegs.later generation earlier) ∈ heldClosed) ∧
      ∀ fuel, steps ≤ fuel → ForeignLegs.firstOpenFrom heldClosed entryOrderId level fuel
        generation = ForeignLegs.later generation steps := by
  refine ⟨fun b hb operations positionId => ?_, fun b operation positionId id hid => ?_,
    ForeignLegs.search_ends⟩
  · exact ⟨openedIds_nodup hb.allSound operations positionId,
      openedIds_increase hb.allSound operations positionId⟩
  · obtain ⟨record, hrecord, hopened⟩ := List.mem_filterMap.mp hid
    obtain ⟨hopens, order, heq, rfl⟩ := openedId_eq_some hopened
    have hfresh := (fresh_perform b operation).notHeld record hrecord positionId order hopens heq
    have hrun : record ∈ machine.told b [operation] := by
      rw [Machine.told_cons, Machine.told_nil, List.append_nil]
      exact hrecord
    exact ⟨hfresh, openedId_run hrun hopened⟩

/-- A stop-loss put on a trader's position, taken off and put on again, with its first two legs held
closed. -/
def setAgain : List Operation :=
  [.apply Sample.env {} (Sample.entryFill Sample.entry),
    .apply Sample.env {} (Sample.protectiveEvent .orderAccepted 200 (some (.finite 90)) none),
    .apply Sample.env {} (Sample.protectiveEvent .orderReplaced 300 none (some (.finite 120))),
    .apply { Sample.env with heldClosed := {"1-SL", "1-SL-2"} } {}
      (Sample.protectiveEvent .orderReplaced 400 (some (.finite 95)) (some (.finite 120)))]

/-- It gets a leg each time, the second time under an id that is not held closed. -/
theorem foreign_ids_once_again :
    openedIds 10 (machine.told {} setAgain) = ["1-SL", "1-TP", "1-SL-3"] ∧
      (openedIds 10 (machine.told {} setAgain)).Nodup ∧
      ∀ id ∈ openedIds 10 (machine.step (machine.after {} (setAgain.take 3)) (.apply
          { Sample.env with heldClosed := {"1-SL", "1-SL-2"} } {}
          (Sample.protectiveEvent .orderReplaced 400 (some (.finite 95)) (some (.finite 120))))).2,
        id ∉ ({"1-SL", "1-SL-2"} : Finset String) := by
  refine ⟨by decide +kernel, (foreign_ids_once.1 {} .new setAgain 10).1, fun id hid => ?_⟩
  exact (foreign_ids_once.2.1 _ _ 10 id hid).1

end VenueBook

end NautilusCtrader
