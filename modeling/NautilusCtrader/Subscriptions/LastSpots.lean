import NautilusCtrader.Subscriptions.Sections

/-!
# A last spot pairs no prices across a gap

The venue sends a symbol's bid and ask as they change, and a spot event with one of them takes the other
from the spot kept. A run's history tells every event that came, every bring-up and every release that
ended a symbol's spots: both prices of a `last_spot` came in the session's bring-up and after the last
release of the symbol (`lastSpot_paired`).
-/

namespace NautilusCtrader

open Common

namespace Subscriptions

namespace Interrupted

/-! ## Histories -/

/-- A bring-up of the attached session has begun, and is its last. -/
def Begun (history : List Happened) : Prop :=
  ∃ before current, history = before ++ .bringUp :: current ∧ .attached ∉ current ∧ .bringUp ∉ current

/-- What says that a symbol's spots ended. -/
def Happened.Ends (symbolId : ℤ) (happened : Happened) : Prop :=
  happened = .released symbolId ∨ happened = .releaseCancelled symbolId

/-- An event came, and since then no session was attached, no bring-up begun and no release of the symbol's
spots ended. -/
def Came (history : List Happened) (event : SpotEvent) : Prop :=
  ∃ before later, history = before ++ .spot event :: later ∧ .attached ∉ later ∧ .bringUp ∉ later ∧
    ∀ happened ∈ later, ¬ happened.Ends event.symbolId

/-- An event came in the attached session's current bring-up, after the last release of its symbol's spots
that completed or was cancelled. -/
def CameNow (history : List Happened) (event : SpotEvent) : Prop :=
  ∃ before current later, history = before ++ .bringUp :: (current ++ .spot event :: later) ∧
    .attached ∉ current ++ later ∧ .bringUp ∉ current ++ later ∧
    ∀ happened ∈ later, ¬ happened.Ends event.symbolId

/-- Each price of a symbol's spot came with an event that `came`. -/
structure Priced (came : SpotEvent → Prop) (symbolId : ℤ) (spot : LastSpot) : Prop where
  bid : ∀ price, spot.bid = some price → ∃ event, came event ∧ event.symbolId = symbolId ∧
    event.bid = some price
  ask : ∀ price, spot.ask = some price → ∃ event, came event ∧ event.symbolId = symbolId ∧
    event.ask = some price

/-- Prices that came for fewer reasons came for more. -/
theorem Priced.mono {came came' : SpotEvent → Prop} {symbolId : ℤ} {spot : LastSpot}
    (h : Priced came symbolId spot) (himp : ∀ event, event.symbolId = symbolId → came event → came' event) :
    Priced came' symbolId spot := by
  constructor
  · intro price hprice
    obtain ⟨event, hcame, hsymbol, hbid⟩ := h.bid price hprice
    exact ⟨event, himp event hsymbol hcame, hsymbol, hbid⟩
  · intro price hprice
    obtain ⟨event, hcame, hsymbol, hask⟩ := h.ask price hprice
    exact ⟨event, himp event hsymbol hcame, hsymbol, hask⟩

/-- A bring-up that has begun goes on until the next. -/
theorem Begun.append {history more : List Happened} (h : Begun history)
    (hattached : .attached ∉ more) (hbringUp : .bringUp ∉ more) : Begun (history ++ more) := by
  obtain ⟨before, current, rfl, hold, hold'⟩ := h
  refine ⟨before, current ++ more, by simp, ?_, ?_⟩
  · simp [hold, hattached]
  · simp [hold', hbringUp]

/-- An event that came in this bring-up stays so until its symbol's spots end. -/
theorem Came.append {history more : List Happened} {event : SpotEvent} (h : Came history event)
    (hattached : .attached ∉ more) (hbringUp : .bringUp ∉ more)
    (hends : ∀ happened ∈ more, ¬ happened.Ends event.symbolId) : Came (history ++ more) event := by
  obtain ⟨before, later, rfl, hold, hold', hkept⟩ := h
  refine ⟨before, later ++ more, by simp, ?_, ?_, ?_⟩
  · simp [hold, hattached]
  · simp [hold', hbringUp]
  · intro happened hin
    rcases List.mem_append.mp hin with hin | hin
    · exact hkept happened hin
    · exact hends happened hin

/-- Since no bring-up began after the event, it came in the last one. -/
theorem Came.now {history : List Happened} {event : SpotEvent} (h : Came history event)
    (hbegun : Begun history) : CameNow history event := by
  obtain ⟨before, later, hspot, hattached, hbringUp, hends⟩ := h
  obtain ⟨start, current, hstart, hnone, hnone'⟩ := hbegun
  rw [hstart] at hspot
  rcases Machine.append_split hspot with ⟨between, hlater, -⟩ | ⟨between, hbefore, hsplit⟩
  · -- The bring-up would have begun after the event.
    rw [hlater] at hbringUp
    simp at hbringUp
  · cases between with
    | nil => cases (List.cons.inj hsplit).1
    | cons first between =>
      rw [List.cons_append] at hsplit
      obtain ⟨rfl, hcurrent⟩ := List.cons.inj hsplit
      rw [hcurrent] at hnone hnone' hstart
      simp only [List.mem_append, List.mem_cons, not_or] at hnone hnone'
      refine ⟨start, between, later, hstart, ?_, ?_, hends⟩
      · rw [List.mem_append, not_or]
        exact ⟨hnone.1, hattached⟩
      · rw [List.mem_append, not_or]
        exact ⟨hnone'.1, hbringUp⟩

namespace World

variable {w w' : World}

/-! ## What the turns of calls leave of the spots -/

/-- How a session stands, its restores apart. -/
def stands (w : World) : Option (SessionState × Bool × ℕ) :=
  w.session.map fun s => (s.state, s.lost, s.generation)

/-- `w'` keeps a last spot of `w` unless a release of its symbol's spots ended, and tells these only. -/
def Leaves (w w' : World) : Prop :=
  w'.stands = w.stands ∧ ∃ more, w'.history = w.history ++ more ∧
    (∀ happened ∈ more, ∃ symbolId, happened.Ends symbolId) ∧
    ∀ symbolId found, w'.lastSpots.get? symbolId = some found →
      w.lastSpots.get? symbolId = some found ∧ ∀ happened ∈ more, ¬ happened.Ends symbolId

/-- What touches neither the session, the history nor the prices leaves them. -/
theorem Leaves.of_same (hstands : w'.stands = w.stands) (hhistory : w'.history = w.history)
    (hspots : w'.lastSpots = w.lastSpots) : w.Leaves w' := by
  refine ⟨hstands, [], by rw [hhistory, List.append_nil], ?_, ?_⟩
  · intro happened hin
    cases hin
  · intro symbolId found hget
    rw [hspots] at hget
    refine ⟨hget, fun happened hin => ?_⟩
    cases hin

/-- What is left twice is left. -/
theorem Leaves.trans {w'' : World} (h : w.Leaves w') (h' : w'.Leaves w'') : w.Leaves w'' := by
  obtain ⟨hstands, more, hhistory, hends, hspots⟩ := h
  obtain ⟨hstands', more', hhistory', hends', hspots'⟩ := h'
  refine ⟨hstands'.trans hstands, more ++ more', ?_, ?_, ?_⟩
  · rw [hhistory', hhistory, List.append_assoc]
  · intro happened hin
    rcases List.mem_append.mp hin with hin | hin
    · exact hends happened hin
    · exact hends' happened hin
  · intro symbolId found hget
    obtain ⟨hget', hkept'⟩ := hspots' symbolId found hget
    obtain ⟨hget'', hkept⟩ := hspots symbolId found hget'
    refine ⟨hget'', fun happened hin => ?_⟩
    rcases List.mem_append.mp hin with hin | hin
    · exact hkept happened hin
    · exact hkept' happened hin

/-- A world is left by nothing. -/
theorem Leaves.refl (w : World) : w.Leaves w := .of_same rfl rfl rfl

/-- A session changes in what its standing does not show. -/
theorem stands_map (w : World) {f : Session → Session}
    (hf : ∀ s, ((f s).state, (f s).lost, (f s).generation) = (s.state, s.lost, s.generation)) :
    (w.session.map f).map (fun s => (s.state, s.lost, s.generation)) = w.stands := by
  rw [Option.map_map]
  apply congrArg fun g => Option.map g w.session
  funext s
  exact hf s

/-- A consumer is recorded. -/
theorem leaves_record (w : World) (key : Key) (consumer : Consumer) :
    w.Leaves (w.record key consumer) :=
  .of_same (stands_map w fun _ => rfl) rfl rfl

/-- A consumer is recorded whose subscribe got no answer. -/
theorem leaves_recordUnknown (w : World) (session : ℕ) (key : Key) (consumer : Consumer) :
    w.Leaves (w.recordUnknown session key consumer) := by
  apply (leaves_record w key consumer).trans
  unfold recordUnknown
  dsimp only
  split
  · refine .of_same (stands_map _ fun s => ?_) rfl rfl
    unfold Session.markRestoreFailed
    split
    · rfl
    · rfl
  · exact .refl _

/-- A consumer is about to be counted. -/
theorem leaves_acquire (w : World) (key : Key) (consumer : Consumer) :
    w.Leaves (w.acquire key consumer).1 := by
  unfold acquire
  split
  · exact .of_same rfl rfl rfl
  · split
    · exact leaves_record w key consumer
    · exact .refl w

/-- A subscribe is answered. -/
theorem leaves_acquired (w : World) (session : ℕ) (key : Key) (consumer : Consumer)
    (outcome : Outcome) : w.Leaves (w.acquired session key consumer outcome).1 := by
  have hunknown := leaves_recordUnknown w session key consumer
  unfold acquired
  split
  · exact (leaves_record w key consumer).trans (.of_same rfl rfl rfl)
  · exact .refl w
  · exact hunknown
  · split
    · exact .refl w
    · exact hunknown
  · exact hunknown

/-- A spots release that ends tells so, and drops the symbol's spot. -/
theorem leaves_dropSpot (w : World) (key : Key) {happened : ℤ → Happened}
    (hends : ∀ symbolId symbolId', (happened symbolId).Ends symbolId' ↔ symbolId = symbolId') :
    w.Leaves (w.dropSpot key happened) := by
  unfold dropSpot
  split
  · rename_i symbolId
    refine ⟨rfl, [happened symbolId], rfl, ?_, ?_⟩
    · intro told hin
      rw [List.mem_singleton.mp hin]
      exact ⟨symbolId, (hends _ _).mpr rfl⟩
    · intro symbolId' found hget
      obtain ⟨hne, hheld⟩ := Dict.get?_erase_eq_some.mp hget
      refine ⟨hheld, fun told hin => ?_⟩
      rw [List.mem_singleton.mp hin, hends]
      exact Ne.symm hne
  · exact .refl w

/-- A key is dropped. -/
theorem leaves_drop (w : World) (key : Key) : w.Leaves (w.drop key) := by
  have hdropped : w.Leaves
      { w with
        consumers := w.consumers.erase key
        maybeUnsubscribed := w.maybeUnsubscribed.erase key
        session := w.session.map (·.removeRestore key) } :=
    .of_same (stands_map w fun _ => rfl) rfl rfl
  apply hdropped.trans
  apply leaves_dropSpot
  simp [Happened.Ends]

/-- A consumer is about to be released. -/
theorem leaves_release (w : World) (key : Key) (consumer : Consumer) :
    w.Leaves (w.release key consumer).1 := by
  unfold release
  split
  · exact .refl w
  · split
    · exact .of_same rfl rfl rfl
    · split
      · exact leaves_drop w key
      · exact .refl w

/-- An unsubscribe is answered. -/
theorem leaves_released (w : World) (key : Key) (outcome : Outcome) :
    w.Leaves (w.released key outcome) := by
  unfold released
  split
  · have hmarked : w.Leaves { w with maybeUnsubscribed := insert key w.maybeUnsubscribed } :=
      .of_same rfl rfl rfl
    apply hmarked.trans
    apply leaves_dropSpot
    simp [Happened.Ends]
  · exact leaves_drop w key

/-- A call goes on. -/
theorem Leaves.setCall (h : w.Leaves w') (id : ℕ) (c : Call) : w.Leaves (w'.setCall id c) :=
  h.trans (.of_same rfl rfl rfl)

/-- A call ends. -/
theorem Leaves.endCall (h : w.Leaves w') (id : ℕ) (c : Call) : w.Leaves (w'.endCall id c) := by
  apply h.trans
  rw [endCall_same]
  exact .of_same rfl rfl rfl

/-- A call goes on from its own section. -/
theorem Leaves.afterOwn (h : w.Leaves w') (id : ℕ) (c : Call) (raised : Option Raised) :
    w.Leaves (w'.afterOwn id c raised) := by
  unfold World.afterOwn
  split
  · exact h.endCall id c
  · split
    · exact h.setCall id _
    · split
      · exact h.setCall id _
      · exact h.endCall id c

/-- A call runs its own section. -/
theorem Leaves.own (h : w.Leaves w') (id : ℕ) (c : Call) : w.Leaves (w'.own id c) := by
  have hdone : w.Leaves (if c.subscribe then w'.acquire c.key c.consumer
      else w'.release c.key c.consumer).1 := by
    by_cases hsubscribe : c.subscribe = true
    · rw [if_pos hsubscribe]
      exact h.trans (leaves_acquire w' c.key c.consumer)
    · rw [if_neg hsubscribe]
      exact h.trans (leaves_release w' c.key c.consumer)
  unfold World.own
  dsimp only
  split
  · exact hdone.setCall id _
  · exact hdone.afterOwn id c none

/-- A call runs the section of its spots leg. -/
theorem leaves_legSection (w : World) (id : ℕ) (c : Call) (use : LegUse) :
    w.Leaves (w.legSection id c use) := by
  have hdone : w.Leaves (if use = .take then w.acquire c.key.spotsKey c.leg
      else w.release c.key.spotsKey c.leg).1 := by
    by_cases htake : use = .take
    · rw [if_pos htake]
      exact leaves_acquire w c.key.spotsKey c.leg
    · rw [if_neg htake]
      exact leaves_release w c.key.spotsKey c.leg
  unfold legSection
  dsimp only
  split
  · exact hdone.setCall id _
  · by_cases htake : use = .take
    · rw [if_pos htake]
      exact hdone.own id c
    · rw [if_neg htake]
      exact hdone.endCall id c

/-- A call takes the lock it waits for. -/
theorem leaves_enter (w : World) (id : ℕ) : w.Leaves (w.enter id) := by
  have hstart := Leaves.refl w
  unfold enter
  split
  · exact hstart
  · split
    · split
      · exact hstart
      · split
        · exact hstart.own id _
        · split
          · exact hstart.endCall id _
          · exact hstart.setCall id _
    · split
      · exact leaves_legSection w id _ _
      · exact hstart
    · exact hstart

/-- A call's request is answered. -/
theorem leaves_answered (w : World) (id : ℕ) (outcome : Outcome) : w.Leaves (w.answered id outcome) := by
  unfold answered
  split
  · exact .refl w
  · dsimp only
    split
    · split
      · exact (leaves_acquired w _ _ _ outcome).afterOwn id _ _
      · exact (leaves_released w _ outcome).afterOwn id _ none
    · split
      · split
        · exact (leaves_acquired w _ _ _ outcome).own id _
        · exact (leaves_acquired w _ _ _ outcome).endCall id _
      · exact (leaves_released w _ outcome).endCall id _
    · exact .refl w

/-- A call is cancelled. -/
theorem leaves_cancel (w : World) (id : ℕ) : w.Leaves (w.cancel id) := by
  unfold cancel
  split
  · exact .refl w
  · split
    · exact (Leaves.refl w).endCall id _
    · exact (Leaves.refl w).endCall id _
    · exact leaves_answered w id .cancelled

/-! ## Spots and bring-ups -/

/-- What is known of a last spot: with the session's generation its prices came in its bring-up, which has
begun if the session goes on. -/
structure Timely (w : World) : Prop where
  kept : ∀ s symbolId generation spot, w.session = some s →
    w.lastSpots.get? symbolId = some (generation, spot) → generation ≤ s.generation ∧
      (generation = s.generation → Priced (Came w.history) symbolId spot)
  begun : ∀ s, w.session = some s → s.state ≠ .stopped →
    s.lost = true ∧ s.state = .connecting ∨ Begun w.history

/-- The turn of a call. -/
theorem Timely.leaves (h : w.Timely) (hleaves : w.Leaves w') : w'.Timely := by
  obtain ⟨hstands, more, hhistory, hends, hspots⟩ := hleaves
  have hattached : .attached ∉ more := by
    intro hin
    obtain ⟨symbolId, hend | hend⟩ := hends _ hin
    · cases hend
    · cases hend
  have hbringUp : .bringUp ∉ more := by
    intro hin
    obtain ⟨symbolId, hend | hend⟩ := hends _ hin
    · cases hend
    · cases hend
  have hsession {s' : Session} (hs' : w'.session = some s') : ∃ s, w.session = some s ∧
      s'.state = s.state ∧ s'.lost = s.lost ∧ s'.generation = s.generation := by
    rw [stands, stands, hs', Option.map_some] at hstands
    obtain ⟨s, hs, hsame⟩ := Option.map_eq_some_iff.mp hstands.symm
    simp only [Prod.mk.injEq] at hsame
    exact ⟨s, hs, hsame.1.symm, hsame.2.1.symm, hsame.2.2.symm⟩
  constructor
  · intro s' symbolId generation spot hs' hget
    obtain ⟨s, hs, -, -, hgeneration⟩ := hsession hs'
    obtain ⟨hget', hkept⟩ := hspots symbolId _ hget
    obtain ⟨hle, hpriced⟩ := h.kept s symbolId generation spot hs hget'
    rw [hgeneration, hhistory]
    refine ⟨hle, fun hnow => (hpriced hnow).mono fun event hsymbol hcame => ?_⟩
    apply hcame.append hattached hbringUp
    rwa [hsymbol]
  · intro s' hs' hstopped
    obtain ⟨s, hs, hstate, hlost, -⟩ := hsession hs'
    rw [hstate] at hstopped
    rw [hstate, hlost, hhistory]
    rcases h.begun s hs hstopped with hdown | hbegun
    · exact .inl hdown
    · exact .inr (hbegun.append hattached hbringUp)

/-- A step that leaves the spots, and a session that does not come up by it. -/
theorem Timely.onSession (h : w.Timely) {f : Session → Session}
    (hgeneration : ∀ s, (f s).generation = s.generation)
    (hup : ∀ s, (f s).state ≠ .stopped → (f s).lost = true ∧ (f s).state = .connecting ∨
      s.state ≠ .stopped ∧ ((f s).lost = s.lost ∧ (f s).state = s.state ∨ s.lost = false ∨
        s.state ≠ .connecting)) : (w.onSession f).Timely := by
  constructor
  · intro s' symbolId generation spot hs' hget
    obtain ⟨s, hs, rfl⟩ := Option.map_eq_some_iff.mp hs'
    rw [hgeneration]
    exact h.kept s symbolId generation spot hs hget
  · intro s' hs' hstopped
    obtain ⟨s, hs, rfl⟩ := Option.map_eq_some_iff.mp hs'
    rcases hup s hstopped with hdown | ⟨hwas, hhow⟩
    · exact .inl hdown
    · rcases h.begun s hs hwas with ⟨hlost, hconnecting⟩ | hbegun
      · rcases hhow with ⟨hsame, hsame'⟩ | hnot | hnot
        · rw [hsame, hsame']
          exact .inl ⟨hlost, hconnecting⟩
        · exact absurd (hnot.symm.trans hlost) Bool.false_ne_true
        · exact absurd hconnecting hnot
      · exact .inr hbegun

/-- A bring-up leaves the prices of the one before behind. -/
theorem Timely.bringUp (h : w.Timely) : w.bringUp.Timely := by
  unfold World.bringUp
  split
  · exact h
  · rename_i s hs
    split
    · exact h
    · constructor
      · intro s' symbolId generation spot hs' hget
        obtain rfl : s.bringUp = s' := Option.some.inj hs'
        have hle := (h.kept s symbolId generation spot hs hget).1
        show generation ≤ s.generation + 1 ∧ (generation = s.generation + 1 → _)
        constructor
        · omega
        · intro hnow
          omega
      · intro s' hs' hstopped
        exact .inr ⟨w.history, [], rfl, by simp, by simp⟩

/-- A session that is attached has no prices. -/
theorem timely_attach (w : World) : w.attach.Timely := by
  constructor
  · intro s symbolId generation spot hs hget
    cases hget
  · intro s hs hstopped
    rw [← Option.some.inj hs] at hstopped
    exact absurd rfl hstopped

/-- A price of this bring-up is the one kept. -/
theorem get?_of_keptIn {generation : ℕ} {symbolId : ℤ} {last : LastSpot}
    (h : w.keptIn generation symbolId = some last) :
    w.lastSpots.get? symbolId = some (generation, last) := by
  unfold keptIn at h
  split at h
  · cases h
  · rename_i kept hget
    by_cases hnow : kept.1 = generation
    · rw [if_pos hnow] at h
      rw [hget, ← hnow, ← Option.some.inj h]
    · rw [if_neg hnow] at h
      cases h

/-- A price of the spot kept comes with the event, or from the spot kept before in the same bring-up. -/
theorem keep_lastSpots {s : Session} (hsession : w.session = some s) (event : SpotEvent) (now : ℚ) :
    (w.keep event now).lastSpots = w.lastSpots ∨
      ∃ spot, (w.keep event now).lastSpots = w.lastSpots.set event.symbolId (s.generation, spot) ∧
        (∀ price, spot.bid = some price → event.bid = some price ∨
          ∃ last, w.lastSpots.get? event.symbolId = some (s.generation, last) ∧ last.bid = some price) ∧
        ∀ price, spot.ask = some price → event.ask = some price ∨
          ∃ last, w.lastSpots.get? event.symbolId = some (s.generation, last) ∧ last.ask = some price := by
  have hor {price : ℕ} {new : Option ℕ} {read : LastSpot → Option ℕ}
      (h : new.or ((w.keptIn s.generation event.symbolId).bind read) = some price) :
      new = some price ∨ ∃ last, w.lastSpots.get? event.symbolId = some (s.generation, last) ∧
        read last = some price := by
    rcases Option.or_eq_some_iff.mp h with hnew | ⟨-, hkept⟩
    · exact .inl hnew
    · obtain ⟨last, hlast, hread⟩ := Option.bind_eq_some_iff.mp hkept
      exact .inr ⟨last, get?_of_keptIn hlast, hread⟩
  unfold keep
  rw [hsession]
  dsimp only
  split
  · exact .inl rfl
  · exact .inr ⟨_, rfl, fun price hprice => hor hprice, fun price hprice => hor hprice⟩

/-- A spot event comes, and is paired with prices of this bring-up only. -/
theorem Timely.onSpot (h : w.Timely) (event : SpotEvent) (now : ℚ) : (w.onSpot event now).Timely := by
  cases hsession : w.session with
  | none =>
    have hsame : w.onSpot event now = w := by
      rw [World.onSpot, keep, hsession]
      rfl
    rwa [hsame]
  | some s =>
    have hold {came : SpotEvent} (hcame : Came w.history came) : Came (w.history ++ [.spot event]) came := by
      apply hcame.append
      · simp
      · simp
      · simp [Happened.Ends]
    have hnew : Came (w.history ++ [.spot event]) event := ⟨w.history, [], rfl, by simp, by simp, by simp⟩
    have hhistory : (w.onSpot event now).history = w.history ++ [.spot event] := by
      rw [World.onSpot, hsession]
      rfl
    have hsession' : (w.onSpot event now).session = some s := by
      rw [World.onSpot, keep_same]
      exact hsession
    constructor
    · intro s' symbolId generation spot hs' hget
      obtain rfl : s = s' := Option.some.inj (hsession'.symm.trans hs')
      have hlastSpots : (w.onSpot event now).lastSpots = (w.keep event now).lastSpots := rfl
      rw [hlastSpots] at hget
      rw [hhistory]
      have hold' {symbolId' : ℤ} {last : LastSpot}
          (hlast : w.lastSpots.get? symbolId' = some (generation, last)) :
          generation ≤ s.generation ∧ (generation = s.generation →
            Priced (Came (w.history ++ [.spot event])) symbolId' last) := by
        obtain ⟨hle, hpriced⟩ := h.kept s symbolId' generation last hsession hlast
        exact ⟨hle, fun hnow => (hpriced hnow).mono fun came _ hcame => hold hcame⟩
      -- the event is left out, or merged with the prices held
      rcases keep_lastSpots hsession event now with hsame | ⟨spot', hset, hbid, hask⟩
      · rw [hsame] at hget
        exact hold' hget
      · rw [hset] at hget
        rcases Dict.get?_set_eq_some.mp hget with ⟨hsymbol, hspot⟩ | ⟨-, hheld⟩
        · obtain ⟨rfl, rfl⟩ := Prod.mk.inj hspot
          refine ⟨le_refl _, fun _ => ⟨?_, ?_⟩⟩
          · intro price hprice
            -- a price is the event's own, or one held from this bring-up
            rcases hbid price hprice with hnow | ⟨last, hlast, hprice'⟩
            · exact ⟨event, hnew, hsymbol, hnow⟩
            · rw [hsymbol] at hlast
              exact ((hold' hlast).2 rfl).bid price hprice'
          · intro price hprice
            rcases hask price hprice with hnow | ⟨last, hlast, hprice'⟩
            · exact ⟨event, hnew, hsymbol, hnow⟩
            · rw [hsymbol] at hlast
              exact ((hold' hlast).2 rfl).ask price hprice'
        · exact hold' hheld
    · intro s' hs' hstopped
      obtain rfl : s = s' := Option.some.inj (hsession'.symm.trans hs')
      rw [hhistory]
      rcases h.begun s hsession hstopped with hdown | hbegun
      · exact .inl hdown
      · exact .inr (hbegun.append (by simp) (by simp))

/-- Every step keeps the prices timely. -/
theorem Timely.step (h : w.Timely) (action : Action) : (w.step action).Timely := by
  -- what leaves the session, the spots and the history leaves all
  have hquiet {w' : World} (hsession : w'.session = w.session) (hspots : w'.lastSpots = w.lastSpots)
      (hhistory : w'.history = w.history) : w'.Timely := by
    apply h.leaves
    apply Leaves.of_same
    · rw [stands, stands, hsession]
    · exact hhistory
    · exact hspots
  have hrestores {w' : World}
      (hturn : ∃ restores maybeUnsubscribed, w' = { w with restores, maybeUnsubscribed }) : w'.Timely := by
    obtain ⟨restores, maybeUnsubscribed, rfl⟩ := hturn
    exact hquiet rfl rfl rfl
  cases action with
  | call id subscribe key consumer =>
    show (if w.calls.contains id then w else w.beginCall id subscribe key consumer).Timely
    split
    · exact h
    · exact hquiet rfl rfl rfl
  | enter id => exact h.leaves (leaves_enter w id)
  | answered id outcome => exact h.leaves (leaves_answered w id outcome)
  | cancel id => exact h.leaves (leaves_cancel w id)
  | beginRestore id key =>
    show (if w.restores.contains id then w else w.beginRestore id key).Timely
    split
    · exact h
    · exact hrestores (w.beginRestore_same id key)
  | enterRestore id => exact hrestores (w.enterRestore_same id)
  | answerRestore id ok => exact hrestores (w.answerRestore_same id ok)
  | endRestore id => exact hquiet rfl rfl rfl
  | attach => exact timely_attach w
  | detach =>
    constructor
    · intro s symbolId generation spot hs
      cases hs
    · intro s hs
      cases hs
  | bringUp => exact h.bringUp
  | connected =>
    apply h.onSession
    · exact fun s => s.connected_keeps.2
    · intro s hstopped
      unfold Session.connected at hstopped ⊢
      by_cases hconnects : s.state = .connecting ∧ s.lost = false
      · rw [if_pos hconnects]
        refine .inr ⟨?_, .inr (.inl hconnects.2)⟩
        rw [hconnects.1]
        simp
      · rw [if_neg hconnects] at hstopped ⊢
        exact .inr ⟨hstopped, .inl ⟨rfl, rfl⟩⟩
  | authenticated =>
    apply h.onSession
    · exact fun s => s.authenticated_keeps.2
    · intro s hstopped
      unfold Session.authenticated at hstopped ⊢
      by_cases hauthenticates : s.state = .authenticating
      · rw [if_pos hauthenticates, hauthenticates]
        simp
      · rw [if_neg hauthenticates] at hstopped ⊢
        exact .inr ⟨hstopped, .inl ⟨rfl, rfl⟩⟩
  | restored failed =>
    apply h.onSession
    · exact fun s => (s.restored_keeps failed).2
    · intro s hstopped
      unfold Session.restored at hstopped ⊢
      by_cases hrestores : s.state = .restoring
      · rw [if_pos hrestores, hrestores]
        simp
      · rw [if_neg hrestores] at hstopped ⊢
        exact .inr ⟨hstopped, .inl ⟨rfl, rfl⟩⟩
  | lose => exact h.onSession (fun s => rfl) fun s _ => .inl ⟨rfl, rfl⟩
  | stop => exact h.onSession (fun s => rfl) fun s hstopped => absurd rfl hstopped
  | spot event now => exact h.onSpot event now

end World

/-- Both prices of a last spot came in the session's current bring-up, after the last release of the
symbol's spots that completed or was cancelled. -/
theorem lastSpot_paired (actions : List Action) (symbolId : ℤ) :
    ∀ spot ∈ (machine.after {} actions).lastSpot symbolId,
      Priced (CameNow (machine.after {} actions).history) symbolId spot := by
  have htimely : (machine.after {} actions).Timely := by
    apply Machine.after_invariant (I := fun w : World => w.Timely)
    · exact fun w action h => h.step action
    · constructor
      · intro s symbolId generation spot hs
        cases hs
      · intro s hs
        cases hs
  intro spot hspot
  unfold World.lastSpot at hspot
  split at hspot
  · rename_i s generation kept hsession hget
    by_cases hnow : s.accepting = true ∧ generation = s.generation
    · rw [if_pos hnow, Option.mem_some_iff] at hspot
      subst hspot
      have hbegun : Begun (machine.after {} actions).history := by
        have haccepting := hnow.1
        simp only [Session.accepting, Bool.or_eq_true, decide_eq_true_eq] at haccepting
        rcases htimely.begun s hsession (by rcases haccepting with hup | hup <;> simp [hup]) with
          ⟨-, hconnecting⟩ | hbegun
        · simp [hconnecting] at haccepting
        · exact hbegun
      apply ((htimely.kept s symbolId generation kept hsession hget).2 hnow.2).mono
      intro event _ hcame
      exact hcame.now hbegun
    · rw [if_neg hnow] at hspot
      cases hspot
  · cases hspot

/-- A release is cancelled and the spots are subscribed again: a bid that comes then has no ask from before,
and the next ask goes with it. -/
theorem lastSpot_paired_resubscribed :
    let actions := [.attach, .bringUp, .connected, .authenticated, .restored ∅,
      .call 0 true (.spots 1) ⟨"data", "quotes"⟩, .enter 0, .answered 0 .ok,
      .spot { symbolId := 1, bid := some 10, ask := some 12 } 1,
      .call 1 false (.spots 1) ⟨"data", "quotes"⟩, .enter 1, .cancel 1,
      .call 2 true (.spots 1) ⟨"data", "quotes"⟩, .enter 2, .answered 2 .ok,
      .spot { symbolId := 1, bid := some 20 } 2, .spot { symbolId := 1, ask := some 22 } 3]
    (machine.after {} actions.dropLast).lastSpot 1 = some { bid := some 20, ask := none, time := 2 } ∧
      (machine.after {} actions).lastSpot 1 = some { bid := some 20, ask := some 22, time := 3 } ∧
      Priced (CameNow (machine.after {} actions).history) 1
        { bid := some 20, ask := some 22, time := 3 } := by
  refine ⟨by decide +kernel, by decide +kernel, ?_⟩
  exact lastSpot_paired _ 1 _ (by decide +kernel)

end Interrupted

end Subscriptions

end NautilusCtrader
