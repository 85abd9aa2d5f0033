import NautilusCtrader.VenueBook.LegNames

/-!
# Following one leg through a run

A `Tracker` follows one leg. It says when a position has the leg, and at which stage of its lifecycle
the leg then stands. Its laws are about single moves; from them, every call and every run tells of the
leg what its lifecycle allows, provided no name is given twice.
-/

namespace NautilusCtrader

open Common

/-- Whether a move fills an accepted leg of the node's within its quantity. -/
def Act.Fits : Act → Prop
  | .node _ leg (.fill volume) => leg.accepted → leg.filled + volume ≤ leg.quantity
  | _ => True

/-- A quiet act fits. -/
theorem Act.fits_of_quiet {act : Act} (h : act.quiet) : act.Fits := by
  cases act with
  | node level leg change =>
    cases change with
    | fill volume => cases h
    | _ => trivial
  | _ => trivial

namespace VenueBook

/-- The living, accepted leg of the node's that an event fills, if it is a trigger of one. -/
def triggeredLeg (env : Env) (b : Book) (event : ProtoOAExecutionEvent) : Option Leg :=
  match event.order? with
  | none => none
  | some order =>
    match env.pricePrecision order.tradeData.symbolId with
    | none => none
    | some precision =>
      if Handles b event order ∧ order.orderType = .stopLossTakeProfit ∧
          isFill event.executionType then
        let p := (positionFor b event order).position
        ((hitLevel env event order precision p).bind p.legs.get?).filter fun leg =>
          leg.alive && leg.accepted
      else none

/-- A trigger of one of the node's legs that a call applies is no larger than what is left of the
leg. -/
def TriggerWithin (b : Book) : Operation → Prop
  | .apply env _ event => ∀ leg ∈ triggeredLeg env b event,
    leg.filled + event.deal.filledVolume ≤ leg.quantity
  | _ => True

instance (b : Book) (operation : Operation) : Decidable (TriggerWithin b operation) := by
  unfold TriggerWithin
  split <;> infer_instance

/-- Such a call only makes moves that fit. -/
theorem TriggerWithin.fits {b : Book} {operation : Operation} {act : Act}
    (h : TriggerWithin b operation) (hact : OpMay b operation act) : act.Fits := by
  cases hact with
  | event hhandles hprecision hact =>
    cases hact with
    | fillNode hprotective hfill hhit hget _ halive =>
      intro haccepted
      refine h _ ?_
      rw [triggeredLeg, hhandles.1]
      simp only [hprecision, if_pos (show _ ∧ _ ∧ _ from ⟨hhandles, hprotective, hfill⟩), hhit,
        Option.bind_some, hget]
      simp [halive, haccepted]
    | _ => trivial
  | _ => trivial

/-- The news that records of no leg bring. -/
theorem newsOf_legless {key : LegKey} {records : List Record} (h : Legless records) :
    newsOf key records = [] := by
  have : records.filter (fun record => record.leg? = some key) = [] := by
    rw [List.filter_eq_nil_iff]
    intro record hrecord
    simp [h.leg?_eq_none record hrecord]
  rw [newsOf, this]
  rfl

/-- The news of a leg one after the other. -/
theorem newsOf_append (key : LegKey) (told later : List Record) :
    newsOf key (told ++ later) = newsOf key told ++ newsOf key later := by
  simp [newsOf]

/-- A record about a leg is news of it. -/
theorem newsOf_single {key : LegKey} {record : Record} {n : News ℚ}
    (hkey : record.leg? = some key) (hnews : record.news = some n) :
    newsOf key [record] = [n] := by
  simp [newsOf, hkey, hnews]

/-- A record about another leg is none. -/
theorem newsOf_other {key key' : LegKey} {record : Record} (hkey : record.leg? = some key')
    (hne : key' ≠ key) : newsOf key [record] = [] := by
  simp [newsOf, hkey, hne]

/-- What is told of a leg from the stage `s` on leads to `t`, within the told quantity if `fits`. -/
structure Leads (fits : Prop) (s : Stage ℚ) (news : List (News ℚ)) (t : Stage ℚ) : Prop where
  follow : s.follow news = some t
  allFit : fits → s.AllFit news

/-- Without news a stage stays. -/
theorem Leads.nil {fits : Prop} (s : Stage ℚ) : Leads fits s [] s := ⟨rfl, fun _ => trivial⟩

/-- So it does with no news of it. -/
theorem Leads.of_eq_nil {fits : Prop} {s : Stage ℚ} {news : List (News ℚ)} (h : news = []) :
    Leads fits s news s := h ▸ .nil s

/-- One news leads to the next stage. -/
theorem Leads.single {fits : Prop} {s t : Stage ℚ} {n : News ℚ} (hnext : s.next n = some t)
    (hfits : fits → s.Fits n) : Leads fits s [n] t :=
  ⟨by rw [Stage.follow_cons, hnext]; rfl, fun h => ⟨hfits h, fun _ _ => trivial⟩⟩

/-- News lead on in two parts. -/
theorem Leads.append {fits : Prop} {s t u : Stage ℚ} {news later : List (News ℚ)}
    (h : Leads fits s news t) (h' : Leads fits t later u) : Leads fits s (news ++ later) u := by
  refine ⟨?_, fun hfits => Stage.allFit_append (h.allFit hfits) fun t' ht' => ?_⟩
  · rw [Stage.follow_append, h.follow]
    exact h'.follow
  · obtain rfl : t = t' := Option.some.inj (h.follow.symm.trans ht')
    exact h'.allFit hfits

/-- News that fit on a condition fit on a stronger one. -/
theorem Leads.mono {fits fits' : Prop} {s t : Stage ℚ} {news : List (News ℚ)}
    (h : Leads fits s news t) (himp : fits' → fits) : Leads fits' s news t :=
  ⟨h.follow, fun h' => h.allFit (himp h')⟩

/-! ## Trackers -/

/-- How one leg is followed: its key, the name its entry takes for it, the stage it starts at, the
positions that have it, and the stage it stands at there. The laws are about one move of a sound
position. -/
structure Tracker where
  key : LegKey
  name : LegName
  start : Stage ℚ
  Mine : Position → Prop
  Match : Position → Stage ℚ → Prop
  entry_of_mine : ∀ p, Sound p → Mine p → p.entryOrderId ≠ none
  held_of_mine : ∀ p, Mine p → name ∈ namesHeld p
  name_of_take : ∀ p act told q, Sound p → p.entryOrderId = none → Move p act told q → Mine q →
    name ∈ act.names
  match_of_take : ∀ p act told q, Sound p → p.entryOrderId = none → Move p act told q →
    act.names.Nodup → Mine q → Match q start
  of_mine : ∀ p act told q s, Sound p → Mine p → Match p s → Move p act told q →
    ∃ t, Leads act.Fits s (newsOf key told) t ∧ (Mine q → Match q t)
  of_other : ∀ p act told q, Sound p → p.entryOrderId ≠ none → ¬ Mine p → Move p act told q →
    newsOf key told = [] ∧ ¬ Mine q

/-- A position that has not learnt its entry tells of no leg. -/
theorem newsOf_unlearnt {p q : Position} {act : Act} {told : List Record} (h : Sound p)
    (hentry : p.entryOrderId = none) (hmove : Move p act told q) (key : LegKey) :
    newsOf key told = [] := by
  obtain ⟨hlegs, hforeign⟩ := h.no_legs hentry
  cases hmove with
  | other hsame htold => exact newsOf_legless htold
  | take order _ htold => exact newsOf_legless htold
  | takeEnded order _ htold => exact newsOf_legless htold
  | endSilently => rfl
  | node change hleg =>
    rw [hlegs, get?_no_legs] at hleg
    cases hleg
  | openForeign hentry' =>
    rw [hentry] at hentry'
    cases hentry'
  | foreign change hleg =>
    rw [hforeign] at hleg
    cases hleg

/-- A position keeps the entry it has learnt, and takes no other. -/
theorem move_learnt {p q : Position} {act : Act} {told : List Record} (hmove : Move p act told q)
    (hentry : p.entryOrderId ≠ none) : act.names = [] ∧ q.entryOrderId = p.entryOrderId ∧
      q.entryClientOrderId = p.entryClientOrderId := by
  cases hmove with
  | other hsame _ => exact ⟨rfl, hsame.entryOrderId, hsame.entryClientOrderId⟩
  | take order hnone _ => exact absurd hnone hentry
  | takeEnded order hnone _ => exact absurd hnone hentry
  | endSilently => exact ⟨rfl, rfl, rfl⟩
  | node => exact ⟨rfl, rfl, rfl⟩
  | openForeign => exact ⟨rfl, rfl, rfl⟩
  | foreign => exact ⟨rfl, rfl, rfl⟩

namespace Tracker

variable (t : Tracker)

/-! ## One call -/

/-- A position without the leg, none of whose moves takes its name, tells nothing of it. -/
theorem silent_moves {may : Act → Prop} {p q : Position} {told : List Record}
    (hmoves : Moves may p told q) (hnames : ∀ act, may act → t.name ∉ act.names) (hp : Sound p)
    (hmine : ¬ t.Mine p) : newsOf t.key told = [] ∧ ¬ t.Mine q := by
  induction hmoves with
  | refl p => exact ⟨rfl, hmine⟩
  | @cons p q r act told later hmove hmay _ ih =>
    have hname : t.name ∉ act.names := by
      rcases hmay with hquiet | hact
      · rw [Act.names_of_quiet hquiet]
        exact List.not_mem_nil
      · exact hnames act hact
    have hstep : newsOf t.key told = [] ∧ ¬ t.Mine q := by
      by_cases hentry : p.entryOrderId = none
      · exact ⟨newsOf_unlearnt hp hentry hmove t.key,
          fun hq => hname (t.name_of_take p act told q hp hentry hmove hq)⟩
      · exact t.of_other p act told q hp hentry hmine hmove
    obtain ⟨hlater, hr⟩ := ih (sound_move hp hmove) hstep.2
    rw [newsOf_append, hstep.1, hlater]
    exact ⟨rfl, hr⟩

/-- What must hold of a position at stage `s` before its moves: it has the leg at `s`, or the leg has
not begun where it may yet be taken. -/
structure Ready (p : Position) (s : Stage ℚ) : Prop where
  of_mine : t.Mine p → t.Match p s
  of_none : p.entryOrderId = none → s = t.start

/-- The moves of a position lead the leg from its stage to the next. -/
theorem ready_moves {may : Act → Prop} {p q : Position} {told : List Record} {s : Stage ℚ}
    (hmoves : Moves may p told q) (hdistinct : ∀ act, may act → act.names.Nodup) (hp : Sound p)
    (hready : t.Ready p s) :
    ∃ s', Leads (∀ act, may act → act.Fits) s (newsOf t.key told) s' ∧ t.Ready q s' := by
  induction hmoves generalizing s with
  | refl p => exact ⟨s, .nil s, hready⟩
  | @cons p q r act told later hmove hmay _ ih =>
    have hstep : ∃ s', Leads act.Fits s (newsOf t.key told) s' ∧ t.Ready q s' := by
      by_cases hentry : p.entryOrderId = none
      · have hs := hready.of_none hentry
        refine ⟨s, .of_eq_nil (newsOf_unlearnt hp hentry hmove t.key), fun hq => ?_, fun _ => hs⟩
        have hnodup : act.names.Nodup := by
          rcases hmay with hquiet | hact
          · rw [Act.names_of_quiet hquiet]
            exact List.nodup_nil
          · exact hdistinct act hact
        exact hs ▸ t.match_of_take p act told q hp hentry hmove hnodup hq
      · have hlearnt := move_learnt hmove hentry
        have hnot : q.entryOrderId ≠ none := hlearnt.2.1 ▸ hentry
        by_cases hmine : t.Mine p
        · obtain ⟨s', hleads, hmatch⟩ :=
            t.of_mine p act told q s hp hmine (hready.of_mine hmine) hmove
          exact ⟨s', hleads, hmatch, fun h => absurd h hnot⟩
        · obtain ⟨hnil, hother⟩ := t.of_other p act told q hp hentry hmine hmove
          exact ⟨s, .of_eq_nil hnil, fun h => absurd h hother, fun h => absurd h hnot⟩
    obtain ⟨s', hleads, hready'⟩ := hstep
    obtain ⟨s'', hleads', hready''⟩ := ih (sound_move hp hmove) hready'
    refine ⟨s'', ?_, hready''⟩
    rw [newsOf_append]
    exact (hleads.mono fun hfits => hmay.elim Act.fits_of_quiet (hfits act)).append hleads'

/-- What holds of the book while the leg stands at `s`: at most one position has the leg, at that
stage, and none before its name is `used`. -/
structure Tracks (b : Book) (s : Stage ℚ) (used : Prop) : Prop where
  sound : AllSound b
  matched : ∀ x p, b.positions.get? x = some p → t.Mine p → t.Match p s
  unique : ∀ x y p q, b.positions.get? x = some p → b.positions.get? y = some q → t.Mine p →
    t.Mine q → x = y
  unused : ¬ used → s = t.start ∧ ∀ x p, b.positions.get? x = some p → ¬ t.Mine p

variable {t}

/-- A name that a position holds was used. -/
theorem Tracks.used_of_mine {b : Book} {s : Stage ℚ} {used : Prop} (h : t.Tracks b s used) {x : ℤ}
    {p : Position} (hp : b.positions.get? x = some p) (hmine : t.Mine p) : used := by
  by_contra hnot
  exact (h.unused hnot).2 x p hp hmine

/-- Nothing told of the leg, and no position that gains it. -/
theorem Tracks.silent {b b' : Book} {s : Stage ℚ} {used used' : Prop} (h : t.Tracks b s used)
    (himp : used → used') (hsound : AllSound b')
    (hold : ∀ x p, b'.positions.get? x = some p → t.Mine p → b.positions.get? x = some p) :
    t.Tracks b' s used' where
  sound := hsound
  matched x p hp hmine := h.matched x p (hold x p hp hmine) hmine
  unique x y p q hp hq hmine hmine' :=
    h.unique x y p q (hold x p hp hmine) (hold y q hq hmine') hmine hmine'
  unused hnot :=
    ⟨(h.unused fun hused => hnot (himp hused)).1, fun x p hp hmine =>
      (h.unused fun hused => hnot (himp hused)).2 x p (hold x p hp hmine) hmine⟩

/-- At most the position `x` has the leg, at its stage. -/
theorem Tracks.of_sole {b : Book} {s : Stage ℚ} {used : Prop} (hsound : AllSound b) (hused : used)
    (x : ℤ) (hsole : ∀ y p, b.positions.get? y = some p → t.Mine p → y = x ∧ t.Match p s) :
    t.Tracks b s used where
  sound := hsound
  matched y p hp hmine := (hsole y p hp hmine).2
  unique y z p q hp hq hmine hmine' := (hsole y p hp hmine).1.trans (hsole z q hq hmine').1.symm
  unused hnot := absurd hused hnot

/-- What the moves of one position do to the leg: nothing, where it neither has it nor may take it;
else they lead it on, and no other position has it. -/
theorem Tracks.moves {b : Book} {s : Stage ℚ} {used taken : Prop} (h : t.Tracks b s used)
    {may : Act → Prop} {x : ℤ} {p q : Position} {moved : List Record}
    (hp : b.positions.get? x = some p ∨ Blank x p) (hmoves : Moves may p moved q)
    (hdistinct : ∀ act, may act → act.names.Nodup)
    (hnames : ∀ act, may act → t.name ∈ act.names → taken) (hfresh : used → ¬ taken) :
    (newsOf t.key moved = [] ∧ ¬ t.Mine q) ∨
      ((used ∨ taken) ∧ ∃ s', Leads (∀ act, may act → act.Fits) s (newsOf t.key moved) s' ∧
        (t.Mine q → t.Match q s') ∧
        ∀ y r, b.positions.get? y = some r → t.Mine r → y = x) := by
  have hsound : Sound p := hp.elim (fun hp => (h.sound x p hp).1) sound_of_blank
  by_cases hmine : t.Mine p
  · right
    have hget : b.positions.get? x = some p := by
      rcases hp with hp | hblank
      · exact hp
      · exact absurd hblank.entryOrderId (t.entry_of_mine p hsound hmine)
    have hready : t.Ready p s :=
      ⟨h.matched x p hget, fun hnone => absurd hnone (t.entry_of_mine p hsound hmine)⟩
    obtain ⟨s', hleads, hready'⟩ := t.ready_moves hmoves hdistinct hsound hready
    exact ⟨.inl (h.used_of_mine hget hmine), s', hleads, hready'.of_mine, fun y r hr hminer =>
      h.unique y x r p hr hget hminer hmine⟩
  · by_cases htaken : taken
    · right
      have hunused := h.unused fun hused => hfresh hused htaken
      have hready : t.Ready p s := ⟨fun hm => absurd hm hmine, fun _ => hunused.1⟩
      obtain ⟨s', hleads, hready'⟩ := t.ready_moves hmoves hdistinct hsound hready
      exact ⟨.inr htaken, s', hleads, hready'.of_mine, fun y r hr hminer =>
        absurd hminer (hunused.2 y r hr)⟩
    · exact .inl (t.silent_moves hmoves (fun act hact hname => htaken (hnames act hact hname))
        hsound hmine)

/-- What is told is the news of what moved. -/
theorem newsOf_tells {told moved : List Record} (h : Tells told moved) (key : LegKey) :
    newsOf key told = newsOf key moved := by
  rcases h with rfl | ⟨rfl, hlegless⟩
  · rfl
  · rw [newsOf_legless hlegless]
    rfl

/-- One call leads the leg on from its stage. -/
theorem Tracks.changes {b b' : Book} {s : Stage ℚ} {used taken : Prop} (h : t.Tracks b s used)
    {may : Act → Prop} {told : List Record} (hchanges : Changes may b b' told)
    (hsound : AllSound b') (hdistinct : ∀ act, may act → act.names.Nodup)
    (hnames : ∀ act, may act → t.name ∈ act.names → taken) (hfresh : used → ¬ taken) :
    ∃ s', Leads (∀ act, may act → act.Fits) s (newsOf t.key told) s' ∧
      t.Tracks b' s' (used ∨ taken) := by
  have hfound : ∀ {x p}, Found b x p → b.positions.get? x = some p ∨ Blank x p :=
    fun hp => hp.imp_right (·.2)
  -- the position of the leg is changed, dropped, or only passes through the call
  cases hchanges with
  | idle hsame htold =>
    exact ⟨s, .of_eq_nil (newsOf_legless htold),
      h.silent .inl hsound fun x p hp _ => hsame x ▸ hp⟩
  | @moved x p q moved hp hmoves hq hothers htold =>
    rw [newsOf_tells htold]
    -- the moves say nothing of the leg, or lead it on
    rcases h.moves (hfound hp) hmoves hdistinct hnames hfresh with ⟨hnil, hnot⟩ |
      ⟨hused, s', hleads, hmatch, hsole⟩
    · refine ⟨s, .of_eq_nil hnil, h.silent .inl hsound fun y r hr hmine => ?_⟩
      by_cases hy : y = x
      · rw [hy, hq, Option.some.injEq] at hr
        exact absurd (hr ▸ hmine) hnot
      · exact hothers y hy ▸ hr
    · refine ⟨s', hleads, .of_sole hsound hused x fun y r hr hmine => ?_⟩
      by_cases hy : y = x
      · rw [hy, hq, Option.some.injEq] at hr
        exact ⟨hy, hr ▸ hmatch (hr ▸ hmine)⟩
      · exact absurd (hsole y r (hothers y hy ▸ hr) hmine) hy
  | @dropped x p q moved hp hmoves hq hothers htold =>
    rw [newsOf_tells htold]
    have hnot : ∀ y r, b'.positions.get? y = some r → y ≠ x := by
      rintro y r hr rfl
      rw [hq] at hr
      cases hr
    rcases h.moves (hfound hp) hmoves hdistinct hnames hfresh with ⟨hnil, -⟩ | ⟨hused, s', hleads, -, hsole⟩
    · exact ⟨s, .of_eq_nil hnil,
        h.silent .inl hsound fun y r hr _ => hothers y (hnot y r hr) ▸ hr⟩
    · refine ⟨s', hleads, .of_sole hsound hused x fun y r hr hmine => ?_⟩
      exact absurd (hsole y r (hothers y (hnot y r hr) ▸ hr) hmine) (hnot y r hr)
  | @passing x p q moved hp hmoves hsame htold =>
    rw [newsOf_tells htold]
    have hmine : ¬ t.Mine p := fun hmine =>
      t.entry_of_mine p (sound_of_blank hp) hmine hp.entryOrderId
    by_cases htaken : taken
    · have hunused := h.unused fun hused => hfresh hused htaken
      obtain ⟨s', hleads, -⟩ := t.ready_moves hmoves hdistinct (sound_of_blank hp)
        ⟨fun hm => absurd hm hmine, fun _ => hunused.1⟩
      exact ⟨s', hleads, .of_sole hsound (.inr htaken) x fun y r hr hminer =>
        absurd hminer (hunused.2 y r (hsame y ▸ hr))⟩
    · have hsilent := t.silent_moves hmoves
        (fun act hact hname => htaken (hnames act hact hname)) (sound_of_blank hp) hmine
      exact ⟨s, .of_eq_nil hsilent.1, h.silent .inl hsound fun y r hr _ => hsame y ▸ hr⟩

/-! ## A run -/

/-- Over a run that takes no name twice, the leg goes through its stages one after another. -/
theorem Tracks.run {b : Book} {s : Stage ℚ} {used : Prop} (h : t.Tracks b s used)
    {operations : List Operation} (hfresh : used → t.name ∉ namesTaken b operations)
    (hnodup : (namesTaken b operations).Nodup) :
    ∃ s', Leads (machine.Always TriggerWithin b operations) s
      (newsOf t.key (machine.told b operations)) s' := by
  induction operations generalizing b s used with
  | nil => exact ⟨s, .nil s⟩
  | cons operation rest ih =>
    have hdistinct := List.nodup_append.mp hnodup
    obtain ⟨s', hleads, htracks⟩ := (h.changes (perform_named b operation) (allSound_perform h.sound operation)
      (fun act hact => hact.2.nodup hdistinct.1) (fun act hact hname => hact.2.subset hname)
      (fun hused hname => hfresh hused (List.mem_append_left _ hname)) :
        ∃ s', _ ∧ t.Tracks _ s' (used ∨ t.name ∈ takenBy b operation))
    obtain ⟨s'', hleads'⟩ := ih htracks
      (fun hused hname => hused.elim
        (fun hused => hfresh hused (List.mem_append_right _ hname))
        fun htaken => hdistinct.2.2 _ htaken _ hname rfl) hdistinct.2.1
    refine ⟨s'', ?_⟩
    show Leads _ s (newsOf t.key (_ ++ machine.told (perform b operation).1 rest)) s''
    rw [newsOf_append]
    exact (hleads.mono fun hfits act hact => hfits.1.fits hact.1).append
      (hleads'.mono fun hfits => hfits.2)

end Tracker

end VenueBook

end NautilusCtrader
