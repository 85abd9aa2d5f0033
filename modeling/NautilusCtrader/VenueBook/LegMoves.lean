import NautilusCtrader.VenueBook.Moves

/-!
# The leg rules are chains of moves

Which leg each record is about, and one lemma a function for the rules that change a position's legs:
`Moves may p told q` for a rule that takes `p` to `q` and tells `told`.
-/

namespace NautilusCtrader

open Common

/-! ## Records about no leg -/

/-- To tell nothing is to tell of no leg. -/
theorem Legless.nil : Legless [] := ⟨fun _ h => by cases h⟩

/-- Records about no leg stay so together. -/
theorem Legless.append {rs rs' : List Record} (h : Legless rs) (h' : Legless rs') :
    Legless (rs ++ rs') := by
  refine ⟨fun record hmem => ?_⟩
  rcases List.mem_append.mp hmem with hmem | hmem
  · exact h.leg?_eq_none record hmem
  · exact h'.leg?_eq_none record hmem

/-- So they do with one more. -/
theorem Legless.cons {r : Record} {rs : List Record} (h : r.leg? = none) (h' : Legless rs) :
    Legless (r :: rs) := by
  refine ⟨fun record hmem => ?_⟩
  rcases List.mem_cons.mp hmem with rfl | hmem
  · exact h
  · exact h'.leg?_eq_none record hmem

/-- A record about no leg. -/
theorem Legless.single {r : Record} (h : r.leg? = none) : Legless [r] := .cons h .nil

/-- Records about no leg, on a condition. -/
theorem Legless.ite {c : Prop} [Decidable c] {rs rs' : List Record} (h : Legless rs)
    (h' : Legless rs') : Legless (if c then rs else rs') := by
  split
  · exact h
  · exact h'

namespace VenueBook

@[simp] theorem leg?_unnamedClose (p : Position) (deal : ProtoOADeal) :
    (unnamedClose p deal).leg? = none := rfl

/-- A record under a broker order's own id is about no leg. -/
theorem leg?_orderEvent {event : OrderEvent} {orderId : ℤ}
    (h : event.venueOrderId = some (toString orderId)) : (Record.orderEvent event).leg? = none := by
  have hid := isLegId_orderId orderId
  cases hclient : event.clientOrderId <;> simp only [Record.leg?, h, hclient, hid] <;> rfl

@[simp] theorem leg?_orderFilled (order : ProtoOAOrder) (clientOrderId : Option String)
    (fill : Fill) : (orderFilled order clientOrderId fill).leg? = none := leg?_orderEvent rfl

@[simp] theorem leg?_orderNews (kind : OrderEventKind) (order : ProtoOAOrder)
    (clientOrderId reason : Option String) :
    (orderNews kind order clientOrderId reason).leg? = none := leg?_orderEvent rfl

@[simp] theorem leg?_orderUpdated (order : ProtoOAOrder) (prices : Levels) (ts : ℤ) :
    (orderUpdated order prices ts).leg? = none := leg?_orderEvent rfl

@[simp] theorem leg?_externalReport (order : ProtoOAOrder) (reduceOnly : Bool) (fills : List Fill)
    (kind : ExternalType) (prices : Levels) :
    (Record.externalOrder (externalReport order reduceOnly fills kind prices)).leg? = none := by
  show (if isLegId (toString order.orderId) then _ else none) = none
  rw [isLegId_orderId]
  rfl

/-- `_leg_event` tells of the leg it is given. -/
theorem leg?_legEvent (kind : OrderEventKind) (p : Position) (level : Level) (leg : Leg) (ts : ℤ)
    (quantity price : Option ℚ) (fill : Option Fill) :
    (legEvent kind p level leg ts quantity price fill).leg? = some (.node leg.clientOrderId) := by
  unfold legEvent legId Record.leg?
  cases p.entryOrderId with
  | none => rfl
  | some entryOrderId =>
    show (if isLegId (legVenueOrderId entryOrderId level) then _ else none) = _
    rw [isLegId_legVenueOrderId]
    rfl

end VenueBook

open VenueBook

/-! ## Loops over levels -/

/-- Setting what is there changes nothing. -/
theorem ByLevel.set_get? {α : Type} {d : ByLevel α} {level : Level} {a : α}
    (h : d.get? level = some a) : d.set level a = d := by
  refine ByLevel.ext_get? fun x => ?_
  rw [ByLevel.get?_set]
  split
  · rename_i hx
    rw [← hx, h]
  · rfl

variable {may : Act → Prop}

/-- Levels that move their position one after the other. -/
theorem moves_overLevels {I : Position → Prop} {f : Position → Level → Position × List Record}
    (hI : ∀ p level, I p → I (f p level).1)
    (hf : ∀ p level, I p → Moves may p (f p level).2 (f p level).1) {p : Position} (hp : I p) :
    Moves may p (p.overLevels f).2 (p.overLevels f).1 :=
  (hf p .stopLoss hp).trans (hf _ .takeProfit (hI p .stopLoss hp))

/-- A step of a loop over the node's legs leaves a leg alone or makes a quiet change to it. -/
def QuietLegStep (leg : Leg) (out : Leg × List Record) : Prop :=
  out = (leg, []) ∨ ∃ change record, out = (leg.after change, [record]) ∧ leg.alive ∧
    leg.Allows change ∧ change.isFill = false ∧ record.leg? = some (.node leg.clientOrderId) ∧
    record.news = some change.news

/-- Legs that take quiet steps. -/
theorem moves_overLegs {f : Level → Leg → Leg × List Record}
    (hf : ∀ level leg, QuietLegStep leg (f level leg)) (p : Position) :
    Moves may p (p.overLegs f).2 (p.overLegs f).1 := by
  refine moves_overLevels (I := fun _ => True) (fun _ _ _ => trivial) (fun p level _ => ?_) trivial
  dsimp only
  cases hleg : p.legs.get? level with
  | none => exact .refl p
  | some leg =>
    rcases hf level leg with hsame | ⟨change, record, hout, halive, hallows, hquiet, hkey, hnews⟩
    · dsimp only
      rw [hsame, ByLevel.set_get? hleg]
      exact .refl p
    · dsimp only
      rw [hout]
      exact .single (.node change hleg halive hallows hkey hnews) (.inl (by simp [Act.quiet, hquiet]))

/-- The same for a loop over the foreign legs. -/
def QuietForeignStep (leg : ForeignLeg) (out : ForeignLeg × List Record) : Prop :=
  out = (leg, []) ∨ ∃ change record, out = (leg.after change, [record]) ∧ leg.alive ∧
    leg.Allows change ∧ change.isFill = false ∧
    (isLegId leg.venueOrderId → record.leg? = some (.foreign leg.venueOrderId)) ∧
    record.news = some change.news

/-- Foreign legs that take quiet steps. -/
theorem moves_mapAccum {f : Level → ForeignLeg → ForeignLeg × List Record}
    (hf : ∀ level leg, QuietForeignStep leg (f level leg)) (p : Position) :
    Moves may p (p.foreignLegs.mapAccum f).2
      { p with foreignLegs := (p.foreignLegs.mapAccum f).1 } := by
  refine Dict.mapAccum_induction
    (R := fun d told d' => Moves may { p with foreignLegs := d } told { p with foreignLegs := d' })
    (fun d => .refl _) (fun d level leg later d' hleg hrest => ?_) p.foreignLegs
  rcases hf level leg with hsame | ⟨change, record, hout, halive, hallows, hquiet, hkey, hnews⟩
  · rw [hsame, Dict.set_get? hleg] at hrest
    rwa [hsame]
  · rw [hout] at hrest ⊢
    exact .cons (.foreign (p := { p with foreignLegs := d }) change hleg halive hallows hkey hnews)
      (.inl (by simp [Act.quiet, hquiet])) hrest

/-! ## The leg rules -/

namespace VenueBook

/-- A level that changes moves its leg. -/
theorem moves_levelChange (oldLevels : Levels) (manual : Bool) (ts : ℤ) (p : Position)
    (level : Level) : Moves may p (levelChange oldLevels manual ts p level).2
      (levelChange oldLevels manual ts p level).1 := by
  have hsaid : ∀ action, Legless (if manual then [activity .manualChange p action ts] else []) :=
    fun action => .ite (.single rfl) .nil
  unfold levelChange
  dsimp only
  split
  case h_1 leg price hwaiting hnew =>
    rw [Option.filter_eq_some_iff, Option.filter_eq_some_iff] at hwaiting
    obtain ⟨⟨hleg, halive⟩, haccepted⟩ := hwaiting
    refine (Moves.single (.node (.accept (leg.filled + p.protectiveVolume)) hleg halive
      ⟨by simpa using haccepted, Nat.le_add_right _ _⟩ (leg?_legEvent ..) rfl) (.inl rfl)).trans
      (.tell (hsaid _))
  case h_2 hother =>
    split
    · exact .refl p
    · split
      case h_1 hnew =>
        split
        case h_1 leg hlive =>
          rw [Option.filter_eq_some_iff] at hlive
          exact (Moves.single (.node .cancel hlive.1 hlive.2 trivial (leg?_legEvent ..)
            rfl) (.inl rfl)).trans (.tell (hsaid _))
        case h_2 => exact .tell (hsaid _)
      case h_2 price hnew =>
        split
        · exact .tell (hsaid _)
        · split
          case h_1 leg hlive =>
            have haccepted : leg.accepted = true := by
              by_contra hfalse
              exact hother leg price (by rw [hlive]; simp [hfalse]) hnew
            rw [Option.filter_eq_some_iff] at hlive
            exact (Moves.single (.node (.update (leg.filled + p.protectiveVolume))
              hlive.1 hlive.2 ⟨haccepted, Nat.le_add_right _ _⟩ (leg?_legEvent ..) rfl)
              (.inl rfl)).trans (.tell (hsaid _))
          case h_2 => exact .tell (hsaid _)

/-- Legs follow the position's size. -/
theorem moves_resizeLegs (ts : ℤ) (p : Position) :
    Moves may p (resizeLegs ts p).2 (resizeLegs ts p).1 := by
  refine moves_overLegs (fun level leg => ?_) p
  dsimp only
  split
  case isTrue h =>
    simp only [Bool.and_eq_true] at h
    exact .inr ⟨.update _, _, rfl, h.1.1, ⟨h.1.2, Nat.le_add_right _ _⟩, rfl, leg?_legEvent .., rfl⟩
  case isFalse => exact .inl rfl

/-- Both levels that change. -/
theorem moves_levelChanges (oldLevels : Levels) (manual : Bool) (ts : ℤ) (p : Position) :
    Moves may p (levelChanges oldLevels manual ts p).2 (levelChanges oldLevels manual ts p).1 :=
  (moves_overLevels (I := fun _ => True) (fun _ _ _ => trivial)
    (fun p level _ => moves_levelChange oldLevels manual ts p level) trivial).trans
    (moves_resizeLegs ts _)

/-- The legs are cancelled. -/
theorem moves_cancelLegs (ts : ℤ) (p : Position) :
    Moves may p (cancelLegs ts p).2 (cancelLegs ts p).1 := by
  refine moves_overLegs (fun level leg => ?_) p
  split
  case isTrue h => exact .inr ⟨.cancel, _, rfl, h, trivial, rfl, leg?_legEvent .., rfl⟩
  case isFalse => exact .inl rfl

end VenueBook

/-! ## The rules of foreign legs -/

namespace ForeignLegs

/-- An event under a leg's id without a client order id is about that foreign leg. -/
theorem leg?_foreign {event : OrderEvent} {venueOrderId : String}
    (hid : event.venueOrderId = some venueOrderId) (hclient : event.clientOrderId = none)
    (h : isLegId venueOrderId) : (Record.orderEvent event).leg? = some (.foreign venueOrderId) := by
  simp only [Record.leg?, hid, hclient, h, if_true]

/-- The foreign legs are cancelled. -/
theorem moves_cancelAll (ts : ℤ) (p : Position) :
    Moves may p (cancelAll ts p).2 (cancelAll ts p).1 := by
  refine moves_mapAccum (fun level leg => ?_) p
  split
  case isTrue h => exact .inr ⟨.cancel, _, rfl, h, trivial, rfl, leg?_foreign rfl rfl, rfl⟩
  case isFalse => exact .inl rfl

/-- Foreign legs follow the position's size. -/
theorem moves_resizeLegs (ts : ℤ) (p : Position) :
    Moves may p (resizeLegs ts p).2 (resizeLegs ts p).1 := by
  refine moves_mapAccum (fun level leg => ?_) p
  dsimp only
  split
  case isTrue h =>
    simp only [Bool.and_eq_true] at h
    exact .inr ⟨.update _, _, rfl, h.1, Nat.le_add_right _ _, rfl,
      leg?_foreign rfl rfl, rfl⟩
  case isFalse => exact .inl rfl

/-- Levels without an entry have no legs. -/
theorem moves_entryUnknown (p : Position) : Moves may p (entryUnknown p).2 (entryUnknown p).1 := by
  unfold entryUnknown
  split
  · exact .refl p
  · exact .of_same ⟨rfl, rfl, rfl, rfl, rfl, id⟩ (.single rfl)

/-- The search for a generation goes up. -/
theorem le_firstOpenFrom (heldClosed : Finset String) (entryOrderId : ℤ) (level : Level)
    (fuel : ℕ) (generation : ℕ+) :
    generation ≤ firstOpenFrom heldClosed entryOrderId level fuel generation := by
  induction fuel generalizing generation with
  | zero => exact le_rfl
  | succ fuel ih =>
    unfold firstOpenFrom
    split
    · exact (PNat.lt_add_right generation firstGeneration).le.trans (ih (generation + firstGeneration))
    · exact le_rfl

/-- A new leg's generation is later than the last one's. -/
theorem generation_lt_openLeg {heldClosed : Finset String} {entryOrderId : ℤ} {p : Position}
    {level : Level} {last : ForeignLeg} (h : p.foreignLegs.get? level = some last) :
    last.generation < (openLeg heldClosed entryOrderId p level).generation := by
  refine (PNat.lt_add_right last.generation firstGeneration).trans_le ?_
  unfold openLeg
  rw [h]
  exact le_firstOpenFrom ..

/-- A new foreign leg is opened. -/
theorem moves_newLeg {heldClosed : Finset String} {entryOrderId : ℤ} {p : Position}
    {level : Level} {price : ℚ} {ts : ℤ} (hentry : p.entryOrderId = some entryOrderId)
    (hclient : p.entryClientOrderId = none)
    (hnone : (p.foreignLegs.get? level).filter ForeignLeg.alive = none)
    (hmay : may (.openForeign entryOrderId level)) :
    Moves may p (newLeg heldClosed entryOrderId p level price ts).2
      (newLeg heldClosed entryOrderId p level price ts).1 :=
  .single (.openForeign hentry hclient hnone rfl (fun _ h => generation_lt_openLeg h) rfl rfl
    ⟨_, rfl, rfl, rfl, rfl⟩) (.inr hmay)

/-- A foreign level that changes moves its leg, or opens one. -/
theorem moves_levelChange {heldClosed : Finset String} {entryOrderId : ℤ} {oldLevels : Levels}
    {ts : ℤ} {p : Position} {level : Level} (hentry : p.entryOrderId = some entryOrderId)
    (hclient : p.entryClientOrderId = none)
    (hmay : (p.levels.get? level).isSome → may (.openForeign entryOrderId level)) :
    Moves may p (levelChange heldClosed entryOrderId oldLevels ts p level).2
      (levelChange heldClosed entryOrderId oldLevels ts p level).1 := by
  unfold levelChange
  split
  case h_1 price hprice hnone => exact moves_newLeg hentry hclient hnone (hmay (by rw [hprice]; rfl))
  case h_2 leg _ hlive =>
    rw [Option.filter_eq_some_iff] at hlive
    exact .single (.foreign .cancel hlive.1 hlive.2 trivial (leg?_foreign rfl rfl) rfl)
      (.inl rfl)
  case h_3 price leg hprice hlive =>
    rw [Option.filter_eq_some_iff] at hlive
    split
    · exact .refl p
    · exact .single (.foreign (.update (leg.filled + rest p)) hlive.1 hlive.2
        (Nat.le_add_right _ _) (leg?_foreign rfl rfl) rfl) (.inl rfl)
  case h_4 => exact .refl p

/-- The rules change neither the levels nor the entry. -/
theorem levelChange_same (heldClosed : Finset String) (entryOrderId : ℤ) (oldLevels : Levels)
    (ts : ℤ) (p : Position) (level : Level) :
    (levelChange heldClosed entryOrderId oldLevels ts p level).1.levels = p.levels ∧
      (levelChange heldClosed entryOrderId oldLevels ts p level).1.entryOrderId = p.entryOrderId ∧
      (levelChange heldClosed entryOrderId oldLevels ts p level).1.entryClientOrderId =
        p.entryClientOrderId := by
  unfold levelChange newLeg
  split
  · exact ⟨rfl, rfl, rfl⟩
  · exact ⟨rfl, rfl, rfl⟩
  · split <;> exact ⟨rfl, rfl, rfl⟩
  · exact ⟨rfl, rfl, rfl⟩

/-- Both foreign levels that change. -/
theorem moves_levelChanges {heldClosed : Finset String} {oldLevels : Levels} {ts : ℤ}
    {p : Position} (hours : p.ours = false)
    (hmay : ∀ entryOrderId level, p.entryOrderId = some entryOrderId →
      (p.levels.get? level).isSome → may (.openForeign entryOrderId level)) :
    Moves may p (levelChanges heldClosed oldLevels ts p).2
      (levelChanges heldClosed oldLevels ts p).1 := by
  have hclient : p.entryClientOrderId = none := by simpa [Position.ours] using hours
  unfold levelChanges
  split
  case h_1 => exact moves_entryUnknown p
  case h_2 entryOrderId hentry =>
    refine (moves_overLevels (I := fun q => q.levels = p.levels ∧
        q.entryOrderId = some entryOrderId ∧ q.entryClientOrderId = none)
      (fun q level hq => ?_) (fun q level hq => ?_) ⟨rfl, hentry, hclient⟩).trans
      (moves_resizeLegs ts _)
    · obtain ⟨hlevels, hid, hclient⟩ :=
        levelChange_same heldClosed entryOrderId oldLevels ts q level
      exact ⟨hlevels.trans hq.1, hid.trans hq.2.1, hclient.trans hq.2.2⟩
    · exact moves_levelChange hq.2.1 hq.2.2
        fun hlevel => hmay entryOrderId level hentry (hq.1 ▸ hlevel)

/-- A foreign leg's fill: it is raised first where the fill exceeds it. -/
theorem moves_filled {p : Position} {level : Level} {leg : ForeignLeg} {volume : ℕ} {fill : Fill}
    (hleg : p.foreignLegs.get? level = some leg) (halive : leg.alive)
    (hunits : fill.units = volumeToUnits volume)
    (hmay : ∀ leg, may (.foreign level leg (.fill volume))) :
    Moves may p (filled leg volume fill).2
      { p with foreignLegs := p.foreignLegs.set level (filled leg volume fill).1 } := by
  have hnews : ∀ venueOrderId, (Record.orderEvent {
      kind := .filled, venueOrderId := some venueOrderId, clientOrderId := none, tsMs := fill.tsMs
      fill := some fill }).news = some (LegChange.fill volume).news := by
    intro venueOrderId
    simp [Record.news, LegChange.news, hunits]
  unfold filled
  by_cases hraised : leg.quantity < leg.filled + volume
  · have hraise : Move p (.foreign level leg (.update (leg.filled + volume)))
        [resized { leg with quantity := leg.filled + volume } fill.tsMs]
        { p with foreignLegs :=
            p.foreignLegs.set level { leg with quantity := leg.filled + volume } } :=
      .foreign _ hleg halive (Nat.le_add_right _ _) (leg?_foreign rfl rfl) rfl
    have hfill := Moves.single (.foreign (.fill volume)
      (p := { p with foreignLegs :=
        p.foreignLegs.set level { leg with quantity := leg.filled + volume } })
      (Dict.get?_set_self ..) halive le_rfl
      (leg?_foreign rfl rfl) (hnews _)) (.inr (hmay _))
    have hmoves := Moves.cons hraise (.inl rfl) hfill
    simpa only [Dict.set_set, hraised, if_true, decide_true, halive, Bool.true_and, ForeignLeg.after]
      using hmoves
  · have hle : leg.filled + volume ≤ leg.quantity := not_lt.mp hraised
    have hfill := Moves.single (.foreign (.fill volume) hleg halive hle
      (leg?_foreign rfl rfl) (hnews _)) (.inr (hmay _))
    simpa [hraised, halive, ForeignLeg.after] using hfill

end ForeignLegs

end NautilusCtrader
