import NautilusCtrader.Subscriptions.Agreement

/-!
# The turns of a call

Each turn of a call, and the venue's action on its request, keeps the agreement.
-/

namespace NautilusCtrader

open Common

namespace Subscriptions

namespace World

variable {w w₁ : World} {c : Call} {id : ℕ}

/-! ## How a turn ends -/

/-- A turn leaves the call at some stage. -/
theorem Agreed.sets (h : w.Agreed) (hget : w.calls.get? id = some c) (hown : w.Locked c c.key)
    (hm : w.Mid w₁ c) {d : Call} (hlocks : ∀ key, d.holds key = true → w.Locked c key)
    (hok : w₁.CallOk d) (hacquired : ∀ key, c.Acquires key → w₁.counted key ≠ ∅)
    (hreleased : ∀ key, c.Releases key → w₁.counted key = ∅) : (w₁.setCall id d).Agreed := by
  refine h.turned hget hown hm (some d) rfl (fun i => ?_) ?_ ?_ hacquired hreleased
  · rw [World.setCall, Dict.get?_set, hm.calls_eq]
    by_cases hi : id = i
    · rw [if_pos hi, if_pos hi.symm]
    · rw [if_neg hi, if_neg (Ne.symm hi)]
  · intro d' hd'
    obtain rfl := Option.some.inj hd'
    exact hlocks
  · intro d' hd'
    obtain rfl := Option.some.inj hd'
    exact hok

/-- A turn ends the call. -/
theorem Agreed.ends (h : w.Agreed) (hget : w.calls.get? id = some c) (hown : w.Locked c c.key)
    (hm : w.Mid w₁ c) (hacquired : ∀ key, c.Acquires key → w₁.counted key ≠ ∅)
    (hreleased : ∀ key, c.Releases key → w₁.counted key = ∅) : (w₁.endCall id).Agreed := by
  refine h.turned hget hown hm none rfl (fun i => ?_) nofun nofun hacquired hreleased
  rw [World.endCall, Dict.get?_erase, hm.calls_eq]

/-- What a call may rely on while no request of its is out. -/
theorem CallOk.waiting {w : World} {c : Call} {stage : Stage}
    (hflight : ({ c with stage } : Call).flight = none)
    (hleg : ∀ use, ({ c with stage } : Call).use? = some use →
      c.key.IsTrendbar ∧ c.consumer ∉ w.counted c.key)
    (htaken : ({ c with stage } : Call).use? = some .take → c.subscribe = true)
    (hnamed : ¬ c.key.IsTrendbar → ¬ NamedAsLeg c.consumer) : w.CallOk { c with stage } where
  flight f hf := nomatch hflight.symm.trans hf
  leg := hleg
  taken := htaken
  held _ answer hstage _ := by
    have hasks : stage = .asks answer := hstage
    subst hasks
    exact nomatch hflight
  named := hnamed

/-- A call that waits for the spots' lock holds that of its own key. -/
theorem locked_of_legWaits {use : LegUse} (hown : w.Locked c c.key) (key : Key)
    (h : ({ c with stage := .legWaits use } : Call).holds key = true) : w.Locked c key := by
  have hkey : key = c.key := of_decide_eq_true h
  exact hkey ▸ hown

/-- A call that asks locks what it holds. -/
theorem locked_of_asks {answer : Option Bool} (hown : w.Locked c c.key) (key : Key)
    (h : ({ c with stage := .asks answer } : Call).holds key = true) : w.Locked c key := by
  have hkey : key = c.key := of_decide_eq_true h
  exact hkey ▸ hown

/-- A call that asks for its leg locks both keys. -/
theorem locked_of_legAsks {use : LegUse} {answer : Option Bool} (hown : w.Locked c c.key)
    (hspots : w.Locked c c.key.spotsKey) (key : Key)
    (h : ({ c with stage := .legAsks use answer } : Call).holds key = true) : w.Locked c key := by
  rcases (Bool.or_eq_true _ _).mp h with hkey | hkey
  · exact of_decide_eq_true hkey ▸ hown
  · exact of_decide_eq_true hkey ▸ hspots

/-- After its own section a trendbar unsubscribe goes on to the spots, and any other call is over. -/
theorem Agreed.afterOwn (h : w.Agreed) (hget : w.calls.get? id = some c) (hown : w.Locked c c.key)
    (hm : w.Mid w₁ c) (hacquired : ∀ key, c.Acquires key → w₁.counted key ≠ ∅)
    (hreleased : ∀ key, c.Releases key → w₁.counted key = ∅)
    (hgone : c.subscribe = false → c.consumer ∉ w₁.counted c.key) : (w₁.afterOwn id c).Agreed := by
  have hends := h.ends hget hown hm hacquired hreleased
  unfold World.afterOwn
  split
  · exact hends
  · rename_i hkey
    split
    · exact hends
    · rename_i hunsubscribe
      refine h.sets hget hown hm (locked_of_legWaits hown) (CallOk.waiting rfl ?_ nofun ?_)
        hacquired hreleased
      · intro use huse
        exact ⟨hkey ▸ Key.isTrendbar_trendbar _ _,
          hgone (Bool.eq_false_of_not_eq_true hunsubscribe)⟩
      · exact (h.callsOk id c hget).named

/-! ## The section under the call's own lock -/

/-- A subscribe counts its consumer, or asks for its key. -/
theorem Agreed.ownSubscribes (h : w.Agreed) (hget : w.calls.get? id = some c)
    (hown : w.Locked c c.key) (hm : w.Mid w₁ c) (hsubscribe : c.subscribe = true)
    (hleg : c.key.IsTrendbar → c.leg ∈ w₁.counted c.key.spotsKey)
    (hacquired : ∀ key, c.Acquires key → w₁.counted key ≠ ∅)
    (hreleased : ∀ key, ¬ c.Releases key) : (w₁.own id c).Agreed := by
  unfold World.own
  dsimp only
  rw [if_pos hsubscribe]
  rcases acquire_cases hm.registered c.key c.consumer with
    ⟨hacquire, hnone, haccepting⟩ | ⟨w₂, hacquire, hcount, hdown⟩
  · rw [hacquire, if_pos rfl]
    refine h.sets hget hown hm (locked_of_asks hown) ?_ hacquired
      (fun key hrelease => absurd hrelease (hreleased key))
    refine ⟨?_, nofun, nofun, ?_, (h.callsOk id c hget).named⟩
    · intro f hf
      cases hf
      exact ⟨haccepting, fun _ => ⟨hnone, nofun⟩,
        fun hunsubscribe => absurd (hsubscribe.symm.trans hunsubscribe) (by decide)⟩
    · intro _ answer _ hkey
      exact hleg hkey
  · rw [hacquire, if_neg Bool.false_ne_true]
    have hm₂ : w.Mid w₂ c := by
      refine hm.count hcount hown (fun hnone haccepting => ?_) hleg
      rw [← hm.accepting_eq, hdown hnone] at haccepting
      exact absurd haccepting Bool.false_ne_true
    refine h.afterOwn hget hown hm₂ ?_ (fun key hrelease => absurd hrelease (hreleased key)) ?_
    · intro key hacquires hnone
      have hbefore := hacquired key hacquires
      rw [hcount.counted_eq] at hnone
      split at hnone
      · exact Finset.insert_ne_empty _ _ hnone
      · exact hbefore hnone
    · intro hunsubscribe
      exact absurd (hsubscribe.symm.trans hunsubscribe) (by decide)

/-- A spots consumer of its own is the leg of no trendbar consumer. -/
theorem plain_ne (hnamed : ¬ c.key.IsTrendbar → ¬ NamedAsLeg c.consumer) {k : Key}
    (hk : k.IsTrendbar) (hspots : k.spotsKey = c.key) (other : Consumer) :
    k.leg other ≠ c.consumer := by
  intro hname
  have hplain : ¬ c.key.IsTrendbar := fun hc => hc (by rw [← hspots, Key.spotsKey_spotsKey])
  exact hnamed hplain (hname ▸ Key.namedAsLeg_leg hk other)

/-- An unsubscribe releases its consumer, or asks the venue to let its key go. -/
theorem Agreed.ownUnsubscribes (h : w.Agreed) (hget : w.calls.get? id = some c)
    (hown : w.Locked c c.key) (hunsubscribe : c.subscribe = false) (hflight : c.flight = none) :
    (w.own id c).Agreed := by
  have hnamed := (h.callsOk id c hget).named
  have hacquired {w' : World} (key : Key) (hacquires : c.Acquires key) : w'.counted key ≠ ∅ := by
    obtain ⟨f, hf, -⟩ := hacquires
    exact nomatch hflight.symm.trans hf
  have hreleased {w' : World} (key : Key) (hreleases : c.Releases key) : w'.counted key = ∅ := by
    obtain ⟨f, hf, -⟩ := hreleases
    exact nomatch hflight.symm.trans hf
  unfold World.own
  dsimp only
  have hnot : ¬ c.subscribe = true := by rw [hunsubscribe]; exact Bool.false_ne_true
  rw [if_neg hnot]
  rcases release_cases h.registered c.key c.consumer with
    ⟨hrelease, hgone⟩ | ⟨hrelease, hlast, haccepting⟩ | ⟨w₂, hrelease, hcount, hdown⟩
  · rw [hrelease, if_neg Bool.false_ne_true]
    exact h.afterOwn hget hown (Mid.refl h c) hacquired hreleased fun _ => hgone
  · rw [hrelease, if_pos rfl]
    refine h.sets hget hown (Mid.refl h c) (locked_of_asks hown) ?_ hacquired hreleased
    refine ⟨?_, nofun, nofun, ?_, hnamed⟩
    · intro f hf
      cases hf
      exact ⟨haccepting, fun hsubscribe => absurd (hunsubscribe.symm.trans hsubscribe) (by decide),
        fun _ => ⟨hlast, nofun⟩⟩
    · intro hsubscribe
      exact absurd (hunsubscribe.symm.trans hsubscribe) (by decide)
  · rw [hrelease, if_neg Bool.false_ne_true]
    have hm₂ : w.Mid w₂ c := by
      refine (Mid.refl h c).uncount hcount rfl hown (fun hnone => ?_) (.inl ⟨rfl, rfl⟩) ?_
      · rw [h.down (hdown hnone)]
        exact Finset.notMem_empty _
      · exact fun k other hk hspots _ => plain_ne hnamed hk hspots other
    refine h.afterOwn hget hown hm₂ hacquired hreleased fun _ => ?_
    rw [hcount.counted_eq, if_pos rfl]
    exact Finset.notMem_erase _ _

/-! ## The section under the spots' lock -/

/-- The leg of a call goes with no trendbar consumer but its own. -/
theorem leg_ne (hkey : c.key.IsTrendbar) (hgone : c.consumer ∉ w.counted c.key) {k : Key}
    {other : Consumer} (hk : k.IsTrendbar) (hspots : k.spotsKey = c.key.spotsKey)
    (hmem : other ∈ w.counted k) : k.leg other ≠ c.leg := by
  intro hname
  obtain ⟨rfl, rfl⟩ := Key.leg_injective hk hkey hspots hname
  exact hgone hmem

/-- The spots are counted for the call's trendbars, or asked for. -/
theorem Agreed.legTaken (h : w.Agreed) (hget : w.calls.get? id = some c) (hown : w.Locked c c.key)
    (hspots : w.Locked c c.key.spotsKey) (hstage : c.stage = .legWaits .take) :
    (w.legSection id c .take).Agreed := by
  have hok := h.callsOk id c hget
  have huse : c.use? = some .take := by rw [Call.use?, hstage]
  have hflight : c.flight = none := by rw [Call.flight, hstage]
  have hsubscribe := hok.taken huse
  have hacquired {w' : World} (key : Key) (hacquires : c.Acquires key) : w'.counted key ≠ ∅ := by
    obtain ⟨f, hf, -⟩ := hacquires
    exact nomatch hflight.symm.trans hf
  have hreleased (key : Key) : ¬ c.Releases key := by
    rintro ⟨f, hf, -⟩
    exact nomatch hflight.symm.trans hf
  unfold World.legSection
  dsimp only
  rcases acquire_cases h.registered c.key.spotsKey c.leg with
    ⟨hacquire, hnone, haccepting⟩ | ⟨w₂, hacquire, hcount, hdown⟩
  · rw [hacquire, if_pos rfl]
    refine h.sets hget hown (Mid.refl h c) (locked_of_legAsks hown hspots) ?_ hacquired
      (fun key hreleases => absurd hreleases (hreleased key))
    refine ⟨?_, fun _ _ => hok.leg .take huse, fun _ => hsubscribe, nofun, hok.named⟩
    intro f hf
    cases hf
    exact ⟨haccepting, fun _ => ⟨hnone, nofun⟩, fun htake => absurd htake (by simp)⟩
  · rw [hacquire, if_neg Bool.false_ne_true]
    have hm₂ : w.Mid w₂ c := by
      refine (Mid.refl h c).count hcount hspots (fun hnone haccepting => ?_) ?_
      · rw [hdown hnone] at haccepting
        exact absurd haccepting Bool.false_ne_true
      · exact fun htrendbar => absurd (Key.spotsKey_spotsKey c.key) htrendbar
    refine h.ownSubscribes hget hown hm₂ hsubscribe (fun _ => ?_) hacquired hreleased
    rw [hcount.counted_eq, if_pos rfl]
    exact Finset.mem_insert_self _ _

/-- The call's leg is released, or the venue asked to let the spots go. -/
theorem Agreed.legReleased (h : w.Agreed) (hget : w.calls.get? id = some c)
    (hown : w.Locked c c.key) (hspots : w.Locked c c.key.spotsKey) {use : LegUse}
    (hstage : c.stage = .legWaits use) (huse : use ≠ .take) :
    (w.legSection id c use).Agreed := by
  have hok := h.callsOk id c hget
  have hflight : c.flight = none := by rw [Call.flight, hstage]
  have hacquired {w' : World} (key : Key) (hacquires : c.Acquires key) : w'.counted key ≠ ∅ := by
    obtain ⟨f, hf, -⟩ := hacquires
    exact nomatch hflight.symm.trans hf
  have hreleased {w' : World} (key : Key) (hreleases : c.Releases key) : w'.counted key = ∅ := by
    obtain ⟨f, hf, -⟩ := hreleases
    exact nomatch hflight.symm.trans hf
  obtain ⟨hkey, hgone⟩ := hok.leg use (by rw [Call.use?, hstage])
  have hsection : w.legSection id c use =
      if (w.release c.key.spotsKey c.leg).2 = true then
        (w.release c.key.spotsKey c.leg).1.setCall id { c with stage := .legAsks use none }
      else (w.release c.key.spotsKey c.leg).1.endCall id := by
    cases use with
    | take => exact absurd rfl huse
    | giveBack => rfl
    | drop => rfl
  rw [hsection]
  rcases release_cases h.registered c.key.spotsKey c.leg with
    ⟨hrelease, -⟩ | ⟨hrelease, hlast, haccepting⟩ | ⟨w₂, hrelease, hcount, hdown⟩
  · rw [hrelease, if_neg Bool.false_ne_true]
    exact h.ends hget hown (Mid.refl h c) hacquired hreleased
  · rw [hrelease, if_pos rfl]
    refine h.sets hget hown (Mid.refl h c) (locked_of_legAsks hown hspots) ?_ hacquired hreleased
    refine ⟨?_, fun _ _ => ⟨hkey, hgone⟩, fun htake => ?_, nofun, hok.named⟩
    · intro f hf
      cases hf
      exact ⟨haccepting, fun htake => absurd (of_decide_eq_true htake) huse,
        fun _ => ⟨hlast, nofun⟩⟩
    · exact absurd (Option.some.inj htake) huse
  · rw [hrelease, if_neg Bool.false_ne_true]
    have hm₂ : w.Mid w₂ c := by
      refine (Mid.refl h c).uncount hcount rfl hspots (fun hnone => ?_) (.inr ⟨rfl, rfl⟩) ?_
      · rw [h.down (hdown hnone)]
        exact Finset.notMem_empty _
      · exact fun k other hk hk' hmem => leg_ne hkey hgone hk hk' hmem
    exact h.ends hget hown hm₂ hacquired hreleased

/-! ## A call takes a lock -/

/-- A call that takes the lock it waits for keeps the agreement. -/
theorem Agreed.enter (h : w.Agreed) (id : ℕ) : (w.enter id).Agreed := by
  unfold World.enter
  split
  · exact h
  · rename_i c hget
    have hok := h.callsOk id c hget
    split
    · rename_i hstage
      -- a call that waits has no request at the venue
      have hflight : c.flight = none := by rw [Call.flight, hstage]
      have hacquired {w' : World} (key : Key) (hacquires : c.Acquires key) :
          w'.counted key ≠ ∅ := by
        obtain ⟨f, hf, -⟩ := hacquires
        exact nomatch hflight.symm.trans hf
      have hreleased {w' : World} (key : Key) (hreleases : c.Releases key) :
          w'.counted key = ∅ := by
        obtain ⟨f, hf, -⟩ := hreleases
        exact nomatch hflight.symm.trans hf
      have hunsubscribes (hown : w.Locked c c.key) (hsubscribe : ¬ c.subscribe = true) :
          (w.own id c).Agreed :=
        h.ownUnsubscribes hget hown (Bool.eq_false_of_not_eq_true hsubscribe) hflight
      split
      · exact h
      · rename_i hfree
        have hown : w.Locked c c.key := .inr (by simpa using hfree)
        split
        · rename_i hkey
          by_cases hsubscribe : c.subscribe = true
          · refine h.ownSubscribes hget hown (Mid.refl h c) hsubscribe (fun htrendbar => ?_)
              hacquired ?_
            · exact absurd (hkey ▸ htrendbar) (Key.not_isTrendbar_spots _)
            · rintro key ⟨f, hf, -⟩
              exact nomatch hflight.symm.trans hf
          · exact hunsubscribes hown hsubscribe
        · rename_i hkey
          split
          · rename_i hsubscribe
            exact hunsubscribes hown (by simpa using hsubscribe)
          · rename_i hsubscribe
            split
            · exact h.ends hget hown (Mid.refl h c) hacquired hreleased
            · rename_i hnew
              refine h.sets hget hown (Mid.refl h c) (locked_of_legWaits hown)
                (CallOk.waiting rfl ?_ ?_ hok.named) hacquired hreleased
              · exact fun _ _ => ⟨hkey ▸ Key.isTrendbar_trendbar _ _, hnew⟩
              · exact fun _ => by simpa using hsubscribe
    · rename_i use hstage
      -- the leg's lock is the second that the call takes, under its own
      have hown : w.Locked c c.key := .inl (by simp [Call.holds, hstage])
      split
      · rename_i hfree
        by_cases huse : use = .take
        · subst huse
          exact h.legTaken hget hown (.inr hfree) hstage
        · exact h.legReleased hget hown (.inr hfree) hstage huse
      · exact h
    · exact h

/-! ## A call gets its answer -/

/-- A call that asks has its own request in flight. -/
theorem flight_of_asks {answer : Option Bool} (h : c.stage = .asks answer) :
    c.flight = some ⟨c.subscribe, c.key, c.consumer, answer⟩ := by
  rw [Call.flight, h]

/-- A call that asks for its leg has the leg's request in flight. -/
theorem flight_of_legAsks {use : LegUse} {answer : Option Bool} (h : c.stage = .legAsks use answer) :
    c.flight = some ⟨use = .take, c.key.spotsKey, c.leg, answer⟩ := by
  rw [Call.flight, h]

/-- What a call acquires or releases is its request's key. -/
theorem acquires_of_flight {f : Flight} (hf : c.flight = some f) {key : Key}
    (h : c.Acquires key) : f.subscribe = true ∧ f.key = key ∧ f.answer = some true := by
  obtain ⟨g, hg, hacquires⟩ := h
  obtain rfl := Option.some.inj (hf.symm.trans hg)
  exact hacquires

/-- A call that releases a key has its unsubscribe in flight. -/
theorem releases_of_flight {f : Flight} (hf : c.flight = some f) {key : Key}
    (h : c.Releases key) : f.subscribe = false ∧ f.key = key := by
  obtain ⟨g, hg, hreleases⟩ := h
  obtain rfl := Option.some.inj (hf.symm.trans hg)
  exact hreleases

/-- The answer to an unsubscribe lets the consumer go, and with it the key. -/
theorem Agreed.letGo (h : w.Agreed) (hget : w.calls.get? id = some c) {f : Flight}
    (hf : c.flight = some f) (hunsubscribe : f.subscribe = false) (hanswer : f.answer.isSome = true)
    (hwhose : f.key = c.key ∧ f.consumer = c.consumer ∨
      f.key = c.key.spotsKey ∧ f.consumer = c.leg)
    (hleg : ∀ k other, k.IsTrendbar → k.spotsKey = f.key → other ∈ w.counted k →
      k.leg other ≠ f.consumer) :
    w.Mid (w.drop f.key) c ∧ (∀ key, ¬ c.Acquires key) ∧
      ∀ key, c.Releases key → (w.drop f.key).counted key = ∅ := by
  obtain ⟨hlast, hvenue⟩ := ((h.callsOk id c hget).flight f hf).releasing hunsubscribe
  refine ⟨?_, ?_, ?_⟩
  · refine (Mid.refl h c).uncount (recount_drop h.registered) ?_ (.inl (holds_of_flight hf))
      (fun _ => hvenue hanswer) hwhose hleg
    rw [hlast, Finset.erase_singleton]
  · intro key hacquires
    have hsubscribe := (acquires_of_flight hf hacquires).1
    exact absurd (hunsubscribe.symm.trans hsubscribe) (by decide)
  · intro key hreleases
    rw [counted_drop, if_pos (releases_of_flight hf hreleases).2.symm]

/-- The answer to a subscribe that was accepted counts the consumer. -/
theorem Agreed.gained (h : w.Agreed) (hget : w.calls.get? id = some c) {f : Flight}
    (hf : c.flight = some f) (hsubscribe : f.subscribe = true) (hanswer : f.answer = some true)
    (hleg : f.key.IsTrendbar → f.key.leg f.consumer ∈ w.counted f.key.spotsKey) :
    w.Mid (w.record f.key f.consumer) c ∧
      (∀ key, c.Acquires key → (w.record f.key f.consumer).counted key ≠ ∅) ∧
      ∀ key, ¬ c.Releases key := by
  obtain ⟨-, hvenue⟩ := ((h.callsOk id c hget).flight f hf).acquiring hsubscribe
  have hcount := recount_record h.registered f.key f.consumer
  refine ⟨?_, ?_, ?_⟩
  · exact (Mid.refl h c).count hcount (.inl (holds_of_flight hf)) (fun _ _ => hvenue hanswer) hleg
  · intro key hacquires
    rw [hcount.counted_eq, if_pos (acquires_of_flight hf hacquires).2.1.symm]
    exact Finset.insert_ne_empty _ _
  · intro key hreleases
    have hunsubscribe := (releases_of_flight hf hreleases).1
    exact absurd (hsubscribe.symm.trans hunsubscribe) (by decide)

/-- A refusal leaves what is counted. -/
theorem not_acquires_of_refused {f : Flight} (hf : c.flight = some f)
    (hanswer : f.answer = some false) (key : Key) : ¬ c.Acquires key := fun hacquires => by
  have haccepted := (acquires_of_flight hf hacquires).2.2
  exact absurd (hanswer.symm.trans haccepted) (by decide)

/-- A call with a subscribe in flight releases nothing. -/
theorem not_releases_of_subscribe {f : Flight} (hf : c.flight = some f)
    (hsubscribe : f.subscribe = true) (key : Key) : ¬ c.Releases key := fun hreleases => by
  have hunsubscribe := (releases_of_flight hf hreleases).1
  exact absurd (hsubscribe.symm.trans hunsubscribe) (by decide)

/-- The answer to the request under the call's own lock. -/
theorem Agreed.answeredOwn (h : w.Agreed) (hget : w.calls.get? id = some c) {ok : Bool}
    (hstage : c.stage = .asks (some ok)) : (w.answered id).Agreed := by
  have hok := h.callsOk id c hget
  have hf := flight_of_asks hstage
  have hown : w.Locked c c.key := .inl (holds_of_asks hstage)
  unfold World.answered
  rw [hget]
  simp only [hstage]
  split
  · rename_i hsubscribe
    have hunsubscribe : c.subscribe = false := by simpa using hsubscribe
    obtain ⟨hm, hacquired, hreleased⟩ := h.letGo hget hf hunsubscribe rfl (.inl ⟨rfl, rfl⟩)
      fun k other hk hspots _ => plain_ne hok.named hk hspots other
    refine h.afterOwn hget hown hm (fun key hacquires => absurd hacquires (hacquired key))
      hreleased fun _ => ?_
    rw [counted_drop, if_pos rfl]
    exact Finset.notMem_empty _
  · rename_i hsubscribe
    have hsubscribe : c.subscribe = true := by simpa using hsubscribe
    split
    · rename_i haccepted
      obtain ⟨hm, hacquired, hreleased⟩ := h.gained hget hf hsubscribe (by rw [haccepted])
        (hok.held hsubscribe _ hstage)
      refine h.afterOwn hget hown hm hacquired
        (fun key hreleases => absurd hreleases (hreleased key)) fun hunsubscribe => ?_
      exact absurd (hsubscribe.symm.trans hunsubscribe) (by decide)
    · rename_i hrefused
      have hanswer : some ok = some false := by rw [Bool.eq_false_of_not_eq_true hrefused]
      have hacquired := not_acquires_of_refused hf hanswer
      have hreleased := not_releases_of_subscribe hf hsubscribe
      split
      · exact h.ends hget hown (Mid.refl h c) (fun key ha => absurd ha (hacquired key))
          fun key hr => absurd hr (hreleased key)
      · rename_i hkey
        have hnone := ((hok.flight _ hf).acquiring hsubscribe).1
        refine h.sets hget hown (Mid.refl h c) (locked_of_legWaits hown)
          (CallOk.waiting rfl ?_ nofun hok.named) (fun key ha => absurd ha (hacquired key))
          fun key hr => absurd hr (hreleased key)
        intro _ _
        refine ⟨hkey ▸ Key.isTrendbar_trendbar _ _, ?_⟩
        exact hnone ▸ Finset.notMem_empty _

/-- The answer to the request under the spots' lock. -/
theorem Agreed.answeredLeg (h : w.Agreed) (hget : w.calls.get? id = some c) {use : LegUse} {ok : Bool}
    (hstage : c.stage = .legAsks use (some ok)) : (w.answered id).Agreed := by
  have hok := h.callsOk id c hget
  have hf := flight_of_legAsks hstage
  have huse : c.use? = some use := by rw [Call.use?, hstage]
  have hown : w.Locked c c.key := .inl (holds_of_use huse)
  obtain ⟨hkey, hgone⟩ := hok.leg use huse
  unfold World.answered
  rw [hget]
  simp only [hstage]
  split
  · rename_i hgives
    obtain ⟨hm, hacquired, hreleased⟩ := h.letGo hget hf (decide_eq_false hgives) rfl
      (.inr ⟨rfl, rfl⟩) (fun k other hk hspots hmem => leg_ne hkey hgone hk hspots hmem)
    have hends := h.ends hget hown hm (fun key ha => absurd ha (hacquired key)) hreleased
    cases use with
    | take => exact absurd rfl hgives
    | giveBack => exact hends
    | drop => exact hends
  · rename_i htake
    obtain rfl : use = .take := not_not.mp htake
    have hsubscribe := hok.taken huse
    split
    · rename_i haccepted
      obtain ⟨hm, hacquired, hreleased⟩ := h.gained hget hf rfl (by rw [haccepted])
        fun htrendbar => absurd (Key.spotsKey_spotsKey c.key) htrendbar
      refine h.ownSubscribes hget hown hm hsubscribe (fun _ => ?_) hacquired hreleased
      rw [(recount_record h.registered _ _).counted_eq, if_pos rfl]
      exact Finset.mem_insert_self _ _
    · rename_i hrefused
      have hanswer : some ok = some false := by rw [Bool.eq_false_of_not_eq_true hrefused]
      exact h.ends hget hown (Mid.refl h c)
        (fun key ha => absurd ha (not_acquires_of_refused hf hanswer key))
        fun key hr => absurd hr (not_releases_of_subscribe hf rfl key)

/-- A call that gets the answer to its request keeps the agreement. -/
theorem Agreed.answered (h : w.Agreed) (id : ℕ) : (w.answered id).Agreed := by
  cases hget : w.calls.get? id with
  | none =>
    unfold World.answered
    rw [hget]
    exact h
  | some c =>
    cases hstage : c.stage with
    | asks answer =>
      cases answer with
      | some ok => exact h.answeredOwn hget hstage
      | none =>
        unfold World.answered
        rw [hget]
        simp only [hstage]
        exact h
    | legAsks use answer =>
      cases answer with
      | some ok => exact h.answeredLeg hget hstage
      | none =>
        unfold World.answered
        rw [hget]
        simp only [hstage]
        exact h
    | _ =>
      unfold World.answered
      rw [hget]
      simp only [hstage]
      exact h

/-! ## The venue acts on a call's request -/

/-- What the venue did changes no call's key. -/
@[simp] theorem acted_key (ok : Bool) : (c.acted ok).key = c.key := by
  unfold Call.acted
  split <;> rfl

/-- Nor its consumer. -/
@[simp] theorem acted_consumer (ok : Bool) : (c.acted ok).consumer = c.consumer := by
  unfold Call.acted
  split <;> rfl

/-- Nor what it is for. -/
@[simp] theorem acted_subscribe (ok : Bool) : (c.acted ok).subscribe = c.subscribe := by
  unfold Call.acted
  split <;> rfl

/-- Nor its leg. -/
@[simp] theorem acted_leg (ok : Bool) : (c.acted ok).leg = c.leg := by
  rw [Call.leg, Call.leg, acted_key, acted_consumer]

/-- Nor what it does with the leg. -/
@[simp] theorem acted_use? (ok : Bool) : (c.acted ok).use? = c.use? := by
  unfold Call.acted Call.use?
  cases hstage : c.stage <;> simp [hstage]

/-- Nor the locks it holds. -/
@[simp] theorem acted_holds (ok : Bool) (key : Key) : (c.acted ok).holds key = c.holds key := by
  unfold Call.acted Call.holds
  cases hstage : c.stage <;> simp [hstage]

/-- It answers the request in flight. -/
theorem flight_acted {f : Flight} (hf : c.flight = some f) (ok : Bool) :
    (c.acted ok).flight = some { f with answer := some ok } := by
  unfold Call.flight at hf
  unfold Call.acted Call.flight
  cases hstage : c.stage <;> rw [hstage] at hf <;> cases hf <;> rfl

/-- A call that asks after it asked before. -/
theorem asks_of_acted {ok : Bool} {answer : Option Bool} (h : (c.acted ok).stage = .asks answer) :
    ∃ before, c.stage = .asks before := by
  unfold Call.acted at h
  cases hstage : c.stage with
  | asks before => exact ⟨before, rfl⟩
  | _ =>
    rw [hstage] at h
    simp_all

/-- A release of spots that is out is of no trendbar consumer's leg, but of the call's own. -/
theorem Agreed.releasing_leg (h : w.Agreed) (hget : w.calls.get? id = some c) {f : Flight}
    (hf : c.flight = some f) (hunsubscribe : f.subscribe = false) {k : Key} {other : Consumer}
    (hk : k.IsTrendbar) (hspots : k.spotsKey = f.key) (hmem : k.leg other ∈ w.counted f.key) :
    c.holds c.key = true ∧ k = c.key ∧ other = c.consumer ∧ other ∉ w.counted k := by
  have hok := h.callsOk id c hget
  have hlast := ((hok.flight f hf).releasing hunsubscribe).1
  have hname : k.leg other = f.consumer := Finset.mem_singleton.mp (hlast ▸ hmem)
  cases hstage : c.stage with
  | waits => exact nomatch (by rw [Call.flight, hstage] : c.flight = none).symm.trans hf
  | legWaits => exact nomatch (by rw [Call.flight, hstage] : c.flight = none).symm.trans hf
  | asks answer =>
    obtain rfl := Option.some.inj ((flight_of_asks hstage).symm.trans hf)
    exact absurd hname (plain_ne hok.named hk hspots other)
  | legAsks use answer =>
    obtain rfl := Option.some.inj ((flight_of_legAsks hstage).symm.trans hf)
    have huse : c.use? = some use := by rw [Call.use?, hstage]
    obtain ⟨hkey, hgone⟩ := hok.leg use huse
    obtain ⟨rfl, rfl⟩ := Key.leg_injective hk hkey hspots hname
    exact ⟨holds_of_use huse, rfl, rfl, hgone⟩

/-- While a release of spots is out, the venue holds none of the symbol's trendbars. -/
theorem Agreed.no_trendbars (h : w.Agreed) (hget : w.calls.get? id = some c) {f : Flight}
    (hf : c.flight = some f) (hunsubscribe : f.subscribe = false) {k : Key} (hk : k.IsTrendbar)
    (hspots : k.spotsKey = f.key) : k ∉ w.subscribed := by
  intro hmem
  rcases h.venueCounted k hmem with hheld | ⟨id', d, hd, g, hg, hsubscribe, hgkey, hanswer⟩
  · obtain ⟨other, hother⟩ := Finset.nonempty_iff_ne_empty.mpr hheld
    have hleg := h.legs k other hk hother
    exact (h.releasing_leg hget hf hunsubscribe hk hspots (hspots ▸ hleg)).2.2.2 hother
  · have hdok := h.callsOk id' d hd
    -- A trendbar request goes under the call's own lock, with the spots counted.
    have hdstage : d.key = k ∧ ∃ answer, d.stage = .asks answer ∧ d.subscribe = true := by
      cases hstage : d.stage with
      | waits => exact nomatch (by rw [Call.flight, hstage] : d.flight = none).symm.trans hg
      | legWaits => exact nomatch (by rw [Call.flight, hstage] : d.flight = none).symm.trans hg
      | asks answer =>
        obtain rfl := Option.some.inj ((flight_of_asks hstage).symm.trans hg)
        exact ⟨hgkey, answer, rfl, hsubscribe⟩
      | legAsks use answer =>
        obtain rfl := Option.some.inj ((flight_of_legAsks hstage).symm.trans hg)
        exact absurd (hgkey ▸ Key.spotsKey_spotsKey d.key) hk
    obtain ⟨rfl, answer, hstage, hsub⟩ := hdstage
    have hleg := hdok.held hsub answer hstage hk
    obtain ⟨hholds, hkey, -, -⟩ := h.releasing_leg hget hf hunsubscribe hk hspots (hspots ▸ hleg)
    have hdholds : d.holds c.key = true := hkey ▸ holds_of_asks hstage
    obtain rfl := h.locks id id' c d c.key hget hd hholds hdholds
    obtain rfl := Option.some.inj (hget.symm.trans hd)
    obtain rfl := Option.some.inj (hf.symm.trans hg)
    exact absurd (hunsubscribe.symm.trans hsubscribe) (by decide)

/-- What the venue's action on a request leaves: only the key of the request changes, to what the
answer says. -/
structure Served (f : Flight) (ok : Bool) (before after : Finset Key) : Prop where
  other : ∀ key, key ≠ f.key → (key ∈ after ↔ key ∈ before)
  accepted : f.subscribe = true → ok = true → f.key ∈ after
  refused : f.subscribe = true → ok = false → (f.key ∈ after ↔ f.key ∈ before)
  released : f.subscribe = false → f.key ∉ after

/-- The venue's action on a call's request keeps the agreement, where it leaves the symbol's spots. -/
theorem Agreed.served (h : w.Agreed) (hget : w.calls.get? id = some c) {f : Flight}
    (hf : c.flight = some f) (hanswer : f.answer = none) {ok : Bool} {subscribed : Finset Key}
    (hserved : Served f ok w.subscribed subscribed)
    (hspots : ∀ key ∈ subscribed, key.spotsKey ∈ subscribed) :
    ({ w with subscribed }.setCall id (c.acted ok)).Agreed := by
  have hok := h.callsOk id c hget
  have hflight := hok.flight f hf
  have hcalls (i : ℕ) : ((w.calls.set id (c.acted ok)).get? i) =
      if id = i then some (c.acted ok) else w.calls.get? i := Dict.get?_set _ _ _ _
  -- Each call holds the locks it held.
  have hother {i : ℕ} {d : Call} (hd : (w.calls.set id (c.acted ok)).get? i = some d) :
      i = id ∧ d = c.acted ok ∨ i ≠ id ∧ w.calls.get? i = some d := by
    rw [hcalls] at hd
    by_cases hi : id = i
    · rw [if_pos hi] at hd
      exact .inl ⟨hi.symm, (Option.some.inj hd).symm⟩
    · rw [if_neg hi] at hd
      exact .inr ⟨Ne.symm hi, hd⟩
  have hheld {i : ℕ} {d : Call} (hd : (w.calls.set id (c.acted ok)).get? i = some d) {key : Key}
      (hholds : d.holds key = true) : ∃ d₀, w.calls.get? i = some d₀ ∧ d₀.holds key = true := by
    rcases hother hd with ⟨rfl, rfl⟩ | ⟨-, hold⟩
    · exact ⟨c, hget, acted_holds (c := c) ok key ▸ hholds⟩
    · exact ⟨d, hold, hholds⟩
  have hstays {i : ℕ} {d : Call} (hi : i ≠ id) (hd : w.calls.get? i = some d) :
      (w.calls.set id (c.acted ok)).get? i = some d := by
    rw [hcalls, if_neg (Ne.symm hi), hd]
  have hself : (w.calls.set id (c.acted ok)).get? id = some (c.acted ok) := by
    rw [hcalls, if_pos rfl]
  refine ⟨?_, ?_, ?_, ?_, ?_, ?_, ?_, ?_, ?_, ?_, ?_, ?_⟩
  · exact ⟨h.registered.sets, h.registered.restores⟩
  · intro i i' d d' key hd hd' hholds hholds'
    obtain ⟨d₀, hd₀, hholds₀⟩ := hheld hd hholds
    obtain ⟨d₀', hd₀', hholds₀'⟩ := hheld hd' hholds'
    exact h.locks i i' d₀ d₀' key hd₀ hd₀' hholds₀ hholds₀'
  · intro i d r key hd hr hholds
    obtain ⟨d₀, hd₀, hholds₀⟩ := hheld hd hholds
    exact h.restoreLocks i d₀ r key hd₀ hr hholds₀
  · intro i d hd
    rcases hother hd with ⟨rfl, rfl⟩ | ⟨hi, hold⟩
    · refine ⟨?_, ?_, ?_, ?_, ?_⟩
      · intro g hg
        obtain rfl := Option.some.inj ((flight_acted hf ok).symm.trans hg)
        refine ⟨hflight.accepting, fun hsubscribe => ⟨(hflight.acquiring hsubscribe).1, ?_⟩,
          fun hunsubscribe => ⟨(hflight.releasing hunsubscribe).1, fun _ => ?_⟩⟩
        · intro haccepted
          exact hserved.accepted hsubscribe (Option.some.inj haccepted)
        · exact hserved.released hunsubscribe
      · intro use huse
        rw [acted_use?] at huse
        rw [acted_key, acted_consumer]
        exact hok.leg use huse
      · rw [acted_use?, acted_subscribe]
        exact hok.taken
      · intro hsubscribe answer hstage hkey
        obtain ⟨before, hbefore⟩ := asks_of_acted hstage
        rw [acted_subscribe] at hsubscribe
        rw [acted_key] at hkey ⊢
        rw [acted_leg]
        exact hok.held hsubscribe before hbefore hkey
      · rw [acted_key, acted_consumer]
        exact hok.named
    · have hdok := h.callsOk i d hold
      refine ⟨fun g hg => ?_, hdok.leg, hdok.taken, hdok.held, hdok.named⟩
      have hdflight := hdok.flight g hg
      have hne : g.key ≠ f.key := fun hkey => hi <|
        h.locks i id d c f.key hold hget (hkey ▸ holds_of_flight hg) (holds_of_flight hf)
      refine ⟨hdflight.accepting, fun hsubscribe => ?_, fun hunsubscribe => ?_⟩
      · obtain ⟨hnone, hvenue⟩ := hdflight.acquiring hsubscribe
        exact ⟨hnone, fun haccepted => (hserved.other _ hne).mpr (hvenue haccepted)⟩
      · obtain ⟨hlast, hvenue⟩ := hdflight.releasing hunsubscribe
        exact ⟨hlast, fun hacted hmem => hvenue hacted ((hserved.other _ hne).mp hmem)⟩
  · intro r hr
    have hrestore := h.restoresOk r hr
    refine ⟨hrestore.accepting, hrestore.counted, fun hstage hfirst => ?_, hrestore.first⟩
    have hholds : r.holds r.key = true := by simp [Restore.holds, hstage]
    have hne : r.key ≠ f.key := by
      intro hkey
      have hfree := h.restoreLocks id c r r.key hget hr (hkey ▸ holds_of_flight hf)
      exact Bool.false_ne_true (hfree.symm.trans hholds)
    exact (hserved.other _ hne).mpr (hrestore.subscribed hstage hfirst)
  · exact h.legs
  · intro key hmem
    have hbefore (hmem : key ∈ w.subscribed) : w.counted key ≠ ∅ ∨
        ∃ i d, (w.calls.set id (c.acted ok)).get? i = some d ∧ d.Acquires key := by
      rcases h.venueCounted key hmem with hcounted | ⟨i, d, hd, hacquires⟩
      · exact .inl hcounted
      · by_cases hi : i = id
        · subst hi
          obtain rfl := Option.some.inj (hget.symm.trans hd)
          have haccepted := (acquires_of_flight hf hacquires).2.2
          exact absurd (haccepted.symm.trans hanswer) (Option.some_ne_none true)
        · exact .inr ⟨i, d, hstays hi hd, hacquires⟩
    by_cases hkey : key = f.key
    · subst hkey
      by_cases hsubscribe : f.subscribe = true
      · by_cases haccepted : ok = true
        · exact .inr ⟨id, _, hself, _, flight_acted hf ok, hsubscribe, rfl, by rw [haccepted]⟩
        · exact hbefore ((hserved.refused hsubscribe (by simpa using haccepted)).mp hmem)
      · exact absurd hmem (hserved.released (by simpa using hsubscribe))
    · exact hbefore ((hserved.other key hkey).mp hmem)
  · exact hspots
  · intro hup key hcounted
    have hreleasing (hunsubscribe : f.subscribe = false) (hkey : f.key = key) :
        ∃ i d, (w.calls.set id (c.acted ok)).get? i = some d ∧ d.Releases key :=
      ⟨id, _, hself, _, flight_acted hf ok, hunsubscribe, hkey⟩
    rcases h.countedHeld hup key hcounted with hvenue | hfailed | hawaits | ⟨i, d, hd, hreleases⟩
    · by_cases hkey : key = f.key
      · by_cases hsubscribe : f.subscribe = true
        · refine .inl ?_
          subst hkey
          by_cases haccepted : ok = true
          · exact hserved.accepted hsubscribe haccepted
          · exact (hserved.refused hsubscribe (by simpa using haccepted)).mpr hvenue
        · exact .inr (.inr (.inr (hreleasing (by simpa using hsubscribe) hkey.symm)))
      · exact .inl ((hserved.other key hkey).mpr hvenue)
    · exact .inr (.inl hfailed)
    · exact .inr (.inr (.inl hawaits))
    · refine .inr (.inr (.inr ?_))
      by_cases hi : i = id
      · subst hi
        obtain rfl := Option.some.inj (hget.symm.trans hd)
        obtain ⟨hunsubscribe, hkey⟩ := releases_of_flight hf hreleases
        exact hreleasing hunsubscribe hkey
      · exact ⟨i, d, hstays hi hd, hreleases⟩
  · intro hdown
    exact absurd (hflight.accepting.symm.trans hdown) (by decide)
  · exact h.ready
  · exact h.restoring

/-- A subscribe brings trendbars only where their spots are held. -/
theorem venueSubscribe_spots (hspots : ∀ key ∈ w.subscribed, key.spotsKey ∈ w.subscribed)
    (accept : Bool) (key : Key) :
    ∀ k ∈ (w.venueSubscribe accept key).1, k.spotsKey ∈ (w.venueSubscribe accept key).1 := by
  unfold World.venueSubscribe
  split
  · rename_i haccept
    intro k hk
    rw [Bool.and_eq_true, Bool.or_eq_true] at haccept
    rcases Finset.mem_insert.mp hk with rfl | hold
    · rcases haccept.2 with hplain | hheld
      · rw [of_decide_eq_true hplain]
        exact Finset.mem_insert_self _ _
      · exact Finset.mem_insert_of_mem (of_decide_eq_true hheld)
    · exact Finset.mem_insert_of_mem (hspots k hold)
  · exact hspots

/-- A subscribe of one key leaves the others. -/
theorem mem_venueSubscribe {accept : Bool} {key k : Key} (h : k ≠ key) :
    k ∈ (w.venueSubscribe accept key).1 ↔ k ∈ w.subscribed := by
  unfold World.venueSubscribe
  split
  · exact ⟨fun hk => (Finset.mem_insert.mp hk).resolve_left h, Finset.mem_insert_of_mem⟩
  · exact Iff.rfl

/-- A key that is accepted is subscribed. -/
theorem venueSubscribe_accepted {accept : Bool} {key : Key}
    (h : (w.venueSubscribe accept key).2 = true) : key ∈ (w.venueSubscribe accept key).1 := by
  unfold World.venueSubscribe at h ⊢
  split
  · exact Finset.mem_insert_self _ _
  · rename_i hrefused
    rw [if_neg hrefused] at h
    exact absurd h Bool.false_ne_true

/-- A refusal changes nothing. -/
theorem venueSubscribe_refused {accept : Bool} {key : Key}
    (h : (w.venueSubscribe accept key).2 = false) :
    (w.venueSubscribe accept key).1 = w.subscribed := by
  unfold World.venueSubscribe at h ⊢
  split
  · rename_i haccepted
    rw [if_pos haccepted] at h
    exact absurd h.symm Bool.false_ne_true
  · rfl

/-- What the venue does with a call's request keeps the agreement. -/
theorem Agreed.actOn (h : w.Agreed) (id : ℕ) (accept : Bool) : (w.actOn id accept).Agreed := by
  unfold World.actOn
  split
  · exact h
  · rename_i c hget
    split
    · rename_i subscribe key consumer hf
      dsimp only
      by_cases hsubscribe : subscribe = true
      · subst hsubscribe
        rw [if_pos rfl]
        refine h.served hget hf rfl ⟨fun k hk => mem_venueSubscribe hk,
          fun _ haccepted => venueSubscribe_accepted haccepted, fun _ hrefused => ?_, nofun⟩
          (venueSubscribe_spots h.venueSpots accept key)
        rw [venueSubscribe_refused hrefused]
      · rw [if_neg hsubscribe]
        have hunsubscribe : subscribe = false := Bool.eq_false_of_not_eq_true hsubscribe
        subst hunsubscribe
        unfold World.venueUnsubscribe
        split
        · refine h.served hget hf rfl ⟨fun k hk => ?_, nofun, nofun, fun _ => ?_⟩ ?_
          · rw [Finset.mem_erase]
            exact ⟨And.right, fun hmem => ⟨hk, hmem⟩⟩
          · exact Finset.notMem_erase _ _
          · intro k hk
            obtain ⟨hne, hmem⟩ := Finset.mem_erase.mp hk
            refine Finset.mem_erase.mpr ⟨fun hspots => ?_, h.venueSpots k hmem⟩
            by_cases htrendbar : k.IsTrendbar
            · exact h.no_trendbars hget hf rfl htrendbar hspots hmem
            · exact hne ((not_not.mp htrendbar).symm.trans hspots)
        · rename_i hnone
          exact h.served hget hf rfl ⟨fun _ _ => Iff.rfl, nofun, nofun, fun _ => hnone⟩ h.venueSpots
    · exact h

/-! ## A call begins -/

/-- A call begins with nothing but its wish. -/
theorem Agreed.begun (h : w.Agreed) (hnew : w.calls.get? id = none) {subscribe : Bool} {key : Key}
    {consumer : Consumer} (hnamed : ¬ key.IsTrendbar → ¬ NamedAsLeg consumer) :
    (w.setCall id { subscribe, key, consumer }).Agreed := by
  have hother {i : ℕ} {d : Call} (hd : (w.calls.set id { subscribe, key, consumer }).get? i = some d) :
      i = id ∧ d = { subscribe, key, consumer } ∨ w.calls.get? i = some d := by
    rcases Dict.get?_set_eq_some.mp hd with ⟨hi, hbegun⟩ | ⟨-, hold⟩
    · exact .inl ⟨hi.symm, hbegun.symm⟩
    · exact .inr hold
  have hheld {i : ℕ} {d : Call} (hd : (w.calls.set id { subscribe, key, consumer }).get? i = some d)
      {k : Key} (hholds : d.holds k = true) : w.calls.get? i = some d := by
    rcases hother hd with ⟨-, rfl⟩ | hold
    · exact absurd hholds Bool.false_ne_true
    · exact hold
  have hstays {i : ℕ} {d : Call} (hd : w.calls.get? i = some d) :
      (w.calls.set id { subscribe, key, consumer }).get? i = some d := by
    rw [Dict.get?_set, if_neg, hd]
    rintro rfl
    exact nomatch hnew.symm.trans hd
  refine ⟨?_, ?_, ?_, ?_, fun r hr => ?_, h.legs, ?_, h.venueSpots, ?_, h.down, h.ready,
    h.restoring⟩
  · exact ⟨h.registered.sets, h.registered.restores⟩
  · intro i i' d d' k hd hd' hholds hholds'
    exact h.locks i i' d d' k (hheld hd hholds) (hheld hd' hholds') hholds hholds'
  · intro i d r k hd hr hholds
    exact h.restoreLocks i d r k (hheld hd hholds) hr hholds
  · intro i d hd
    rcases hother hd with ⟨-, rfl⟩ | hold
    · exact ⟨nofun, nofun, nofun, nofun, hnamed⟩
    · exact (h.callsOk i d hold).withCalls _
  · have hrestore := h.restoresOk r hr
    exact ⟨hrestore.accepting, hrestore.counted, hrestore.subscribed, hrestore.first⟩
  · intro k hmem
    rcases h.venueCounted k hmem with hcounted | ⟨i, d, hd, hacquires⟩
    · exact .inl hcounted
    · exact .inr ⟨i, d, hstays hd, hacquires⟩
  · intro hup k hcounted
    rcases h.countedHeld hup k hcounted with hvenue | hfailed | hawaits | ⟨i, d, hd, hreleases⟩
    · exact .inl hvenue
    · exact .inr (.inl hfailed)
    · exact .inr (.inr (.inl hawaits))
    · exact .inr (.inr (.inr ⟨i, d, hstays hd, hreleases⟩))

end World

end Subscriptions

end NautilusCtrader
