import NautilusCtrader.Subscriptions.CallTurns

/-!
# The session's turns

The steps of the session, and the turns of the restores it runs, keep the agreement: a restore subscribes
the spots of a trendbar key without their lock, and no release of these spots is out then.
`machine_agreed` puts the turns together; `subscriptions_agree` says what it comes to.
-/

namespace NautilusCtrader

open Common

namespace Subscriptions

namespace World

variable {w w' : World} {r : Restore}

/-! ## Steps of the session -/

/-- Whether no call holds a lock that the restore holds. -/
def Alone (w : World) (r : Restore) : Prop :=
  ∀ id c key, w.calls.get? id = some c → c.holds key = true → r.holds key = false

/-- A step that counts nobody and leaves every call. -/
theorem Agreed.moved (h : w.Agreed)
    (hsame : w' = { w with
      state := w'.state, supervisor := w'.supervisor, failed := w'.failed, retry := w'.retry
      generation := w'.generation, subscribed := w'.subscribed })
    (hflights : ∀ id c f, w.calls.get? id = some c → c.flight = some f → w'.FlightOk f)
    (hruns : ∀ r, w'.Runs r → w'.RestoreOk r ∧ w.Alone r)
    (hvenueCounted : ∀ key ∈ w'.subscribed, w.counted key ≠ ∅ ∨
      ∃ id c, w.calls.get? id = some c ∧ c.Acquires key)
    (hspots : ∀ key ∈ w'.subscribed, key.spotsKey ∈ w'.subscribed)
    (hheld : w'.accepting = true → ∀ key, w.counted key ≠ ∅ →
      key ∈ w'.subscribed ∨ key ∈ w'.failed ∨ w'.Awaits key ∨
        ∃ id c, w.calls.get? id = some c ∧ c.Releases key)
    (hdown : w'.accepting = false → w'.subscribed = ∅)
    (hready : w'.state = .ready → w'.supervisor = .up)
    (hrestoring : w'.state = .restoring → ∃ left current, w'.supervisor = .restores left current) :
    w'.Agreed := by
  have hcounted : w'.counted = w.counted := by
    rw [hsame]
    rfl
  have hcalls : w'.calls = w.calls := by rw [hsame]
  refine ⟨?_, ?_, ?_, ?_, fun r hr => (hruns r hr).1, ?_, ?_, hspots, ?_, hdown, hready, hrestoring⟩
  · rw [hsame]
    exact ⟨h.registered.sets, h.registered.restores⟩
  · rw [hcalls]
    exact h.locks
  · intro id c r key hget hr
    rw [hcalls] at hget
    exact (hruns r hr).2 id c key hget
  · intro id c hget
    rw [hcalls] at hget
    have hok := h.callsOk id c hget
    refine ⟨fun f hf => hflights id c f hget hf, ?_, hok.taken, ?_, hok.named⟩
    · rw [hcounted]
      exact hok.leg
    · rw [hcounted]
      exact hok.held
  · rw [hcounted]
    exact h.legs
  · rw [hcounted, hcalls]
    exact hvenueCounted
  · rw [hcounted, hcalls]
    exact hheld

/-- A step that leaves the session's state and the venue's subscriptions too. -/
theorem Agreed.went (h : w.Agreed)
    (hsame : w' = { w with
      supervisor := w'.supervisor, failed := w'.failed, retry := w'.retry })
    (hruns : ∀ r, w'.Runs r → w.RestoreOk r ∧ w.Alone r)
    (hheld : w.accepting = true → ∀ key, w.counted key ≠ ∅ → key ∈ w.failed ∨ w.Awaits key →
      key ∈ w.subscribed ∨ key ∈ w'.failed ∨ w'.Awaits key)
    (hready : w.state = .ready → w'.supervisor = .up)
    (hrestoring : w.state = .restoring → ∃ left current, w'.supervisor = .restores left current) :
    w'.Agreed := by
  have hsubscribed : w'.subscribed = w.subscribed := by rw [hsame]
  have hstate : w'.state = w.state := by rw [hsame]
  have haccepting : w'.accepting = w.accepting := by rw [World.accepting, World.accepting, hstate]
  have hcounted : w'.counted = w.counted := by
    rw [hsame]
    rfl
  refine h.moved (by rw [hsame]) ?_ ?_ ?_ ?_ ?_ ?_ ?_ ?_
  · intro id c f hget hf
    have hflight := (h.callsOk id c hget).flight f hf
    refine ⟨haccepting ▸ hflight.accepting, ?_, ?_⟩
    · rw [hcounted, hsubscribed]
      exact hflight.acquiring
    · rw [hcounted, hsubscribed]
      exact hflight.releasing
  · intro r hr
    obtain ⟨hrestore, halone⟩ := hruns r hr
    refine ⟨⟨?_, ?_, ?_, hrestore.first⟩, halone⟩
    · rw [haccepting]
      exact hrestore.accepting
    · rw [hcounted]
      exact hrestore.counted
    · rw [hsubscribed]
      exact hrestore.subscribed
  · rw [hsubscribed]
    exact h.venueCounted
  · rw [hsubscribed]
    exact h.venueSpots
  · intro hup key hkey
    rw [haccepting] at hup
    rw [hsubscribed]
    -- a key not held by the venue is still owed by a restore, or failed
    rcases h.countedHeld hup key hkey with hvenue | hfailed | hawaits | hreleasing
    · exact .inl hvenue
    · rcases hheld hup key hkey (.inl hfailed) with hvenue | hfailed' | hawaits'
      · exact .inl hvenue
      · exact .inr (.inl hfailed')
      · exact .inr (.inr (.inl hawaits'))
    · rcases hheld hup key hkey (.inr hawaits) with hvenue | hfailed' | hawaits'
      · exact .inl hvenue
      · exact .inr (.inl hfailed')
      · exact .inr (.inr (.inl hawaits'))
    · exact .inr (.inr (.inr hreleasing))
  · rw [haccepting, hsubscribed]
    exact h.down
  · rw [hstate]
    exact hready
  · rw [hstate]
    exact hrestoring

/-- A restore that runs is alone on its key. -/
theorem Agreed.alone (h : w.Agreed) (hr : w.Runs r) : w.Alone r :=
  fun id c key hget => h.restoreLocks id c r key hget hr

/-- It is right too. -/
theorem Agreed.runs_ok (h : w.Agreed) (hr : w.Runs r) : w.RestoreOk r ∧ w.Alone r :=
  ⟨h.restoresOk r hr, h.alone hr⟩

/-- A restore that has not begun relies on nothing. -/
theorem restoreOk_new (w : World) (key : Key) : w.RestoreOk (.new key) ∧ w.Alone (.new key) := by
  refine ⟨⟨?_, ?_, ?_, ?_⟩, ?_⟩
  all_goals cases key with
    | spots symbolId => simp [Restore.new, Alone, Restore.holds]
    | trendbar symbolId period =>
      simp [Restore.new, Alone, Restore.holds, Key.isTrendbar_trendbar]

/-- A new restore is of its key. -/
theorem Restore.new_key (key : Key) : (Restore.new key).key = key := by
  cases key <;> rfl

/-- While the session takes no requests, none is out. -/
theorem Agreed.no_flights (h : w.Agreed) (hdown : w.accepting = false) {id : ℕ} {c : Call}
    (hget : w.calls.get? id = some c) {f : Flight} (hf : c.flight = some f) : False := by
  have hup := ((h.callsOk id c hget).flight f hf).accepting
  exact Bool.false_ne_true (hdown.symm.trans hup)

/-- A restore relies on nothing while no request is out. -/
theorem RestoreOk.waiting (h : w.RestoreOk r) (hstage : r.answer? = none) (w' : World) :
    w'.RestoreOk r := by
  have hwaits : r.stage = .waits := by
    unfold Restore.answer? at hstage
    split at hstage
    · assumption
    · exact nomatch hstage
  refine ⟨?_, ?_, ?_, h.first⟩
  · intro answer hasks
    exact nomatch hwaits.symm.trans hasks
  · intro answer hasks
    exact nomatch hwaits.symm.trans hasks
  · intro hasks
    exact nomatch hwaits.symm.trans hasks

/-- While no requests are taken a restore has no answer. -/
theorem RestoreOk.waits_of_down (h : w.RestoreOk r) (hdown : w.accepting = false) :
    r.answer? = none := by
  unfold Restore.answer?
  split
  · rfl
  · rename_i answer hasks
    exact absurd (hdown.symm.trans (h.accepting answer hasks)) Bool.false_ne_true

/-- Between two connections: the session is down, and its state says so. -/
theorem Agreed.down_of_supervisor (h : w.Agreed) (hup : w.supervisor ≠ .up)
    (hrestores : ∀ left current, w.supervisor ≠ .restores left current) : w.accepting = false := by
  unfold World.accepting
  have hready : w.state ≠ .ready := fun hstate => hup (h.ready hstate)
  have hrestoring : w.state ≠ .restoring := by
    intro hstate
    obtain ⟨left, current, hsupervisor⟩ := h.restoring hstate
    exact hrestores left current hsupervisor
  simp [hready, hrestoring]

/-- A step of a session that is down, to one that is down still. -/
theorem Agreed.downMove (h : w.Agreed) (hdown : w.accepting = false)
    (hsame : w' = { w with
      state := w'.state, supervisor := w'.supervisor, failed := w'.failed
      generation := w'.generation })
    (hdown' : w'.accepting = false) (hruns : ∀ r, w'.Runs r → w.Runs r) : w'.Agreed := by
  have hsubscribed : w'.subscribed = ∅ := by
    rw [hsame]
    exact h.down hdown
  refine h.moved (by rw [hsame]) ?_ ?_ ?_ ?_ ?_ (fun _ => hsubscribed) ?_ ?_
  · intro id c f hget hf
    exact (h.no_flights hdown hget hf).elim
  · intro r hr
    obtain ⟨hrestore, halone⟩ := h.runs_ok (hruns r hr)
    exact ⟨hrestore.waiting (hrestore.waits_of_down hdown) w', halone⟩
  · rw [hsubscribed]
    exact fun key hkey => absurd hkey (Finset.notMem_empty key)
  · rw [hsubscribed]
    exact fun key hkey => absurd hkey (Finset.notMem_empty key)
  · intro hup
    exact absurd (hdown'.symm.trans hup) Bool.false_ne_true
  · intro hstate
    rw [World.accepting, hstate] at hdown'
    exact absurd hdown' (by decide)
  · intro hstate
    rw [World.accepting, hstate] at hdown'
    exact absurd hdown' (by decide)

/-- A bring-up begins. -/
theorem Agreed.bringUp (h : w.Agreed) : w.bringUp.Agreed := by
  unfold World.bringUp
  split
  · rename_i hsupervisor
    refine h.downMove (h.down_of_supervisor ?_ ?_) rfl rfl ?_
    · rw [hsupervisor]
      exact nofun
    · rw [hsupervisor]
      exact nofun
    · rintro r (hr | hr)
      · exact nomatch hr
      · exact .inr hr
  · exact h

/-- The connection is there. -/
theorem Agreed.connected (h : w.Agreed) : w.connected.Agreed := by
  unfold World.connected
  split
  · rename_i hsupervisor
    refine h.downMove (h.down_of_supervisor ?_ ?_) rfl rfl fun r hr => hr
    · rw [hsupervisor]
      exact nofun
    · rw [hsupervisor]
      exact nofun
  · exact h

/-- The restores begin with every key that is counted. -/
theorem Agreed.authenticated (h : w.Agreed) : w.authenticated.Agreed := by
  unfold World.authenticated
  split
  · rename_i hstate
    have hdown : w.accepting = false := by
      rw [World.accepting, hstate.2]
      rfl
    have hsubscribed := h.down hdown
    refine h.moved rfl ?_ ?_ h.venueCounted h.venueSpots ?_ (fun _ => hsubscribed) (by rintro ⟨⟩)
      fun _ => ⟨_, _, rfl⟩
    · intro id c f hget hf
      exact (h.no_flights hdown hget hf).elim
    · rintro r (hr | hr)
      · exact absurd hr.symm (Option.some_ne_none r)
      · obtain ⟨hrestore, halone⟩ := h.runs_ok (.inr hr)
        exact ⟨hrestore.waiting (hrestore.waits_of_down hdown) _, halone⟩
    · intro _ key hkey
      exact .inr (.inr (.inl ⟨_, _, rfl, .inl ((h.registered.restores key).mpr hkey)⟩))
  · exact h

/-- The next restore begins. -/
theorem Agreed.restoreNext (h : w.Agreed) : w.restoreNext.Agreed := by
  unfold World.restoreNext
  split
  · rename_i key left hsupervisor
    refine h.went rfl ?_ ?_ ?_ fun _ => ⟨_, _, rfl⟩
    · rintro r (hr | hr)
      · obtain rfl := Option.some.inj hr
        exact restoreOk_new w key
      · exact h.runs_ok (.inr hr)
    · rintro - k - (hfailed | ⟨left', current, hrestores, hk⟩)
      · exact .inr (.inl hfailed)
      · rw [hsupervisor] at hrestores
        cases hrestores
        refine .inr (.inr ⟨_, _, rfl, ?_⟩)
        rcases hk with hleft | ⟨r, hr, -⟩
        · rcases List.mem_cons.mp hleft with rfl | hrest
          · exact .inr ⟨_, rfl, Restore.new_key _⟩
          · exact .inl hrest
        · exact nomatch hr
    · intro hready
      exact nomatch hsupervisor.symm.trans (h.ready hready)
  · exact h

/-- The restores are through. -/
theorem Agreed.restored (h : w.Agreed) : w.restored.Agreed := by
  unfold World.restored
  split
  · rename_i hsupervisor
    have hnone (key : Key) : ¬ w.Awaits key := by
      rintro ⟨left, current, hrestores, hk⟩
      rw [hsupervisor] at hrestores
      cases hrestores
      rcases hk with hleft | ⟨r, hr, -⟩
      · exact absurd hleft List.not_mem_nil
      · exact absurd hr.symm (Option.some_ne_none r)
    have hruns {r : Restore} (hr : w.retryRestore = some r) : w.Runs r := .inr hr
    split
    · rename_i hstate
      have hup : w.accepting = true := by
        rw [World.accepting, hstate]
        rfl
      refine h.moved rfl ?_ ?_ h.venueCounted h.venueSpots ?_ (by rintro ⟨⟩)
        (fun _ => rfl) (by rintro ⟨⟩)
      · intro id c f hget hf
        have hflight := (h.callsOk id c hget).flight f hf
        exact ⟨rfl, hflight.acquiring, hflight.releasing⟩
      · rintro r (hr | hr)
        · exact absurd hr.symm (Option.some_ne_none r)
        · obtain ⟨hrestore, halone⟩ := h.runs_ok (hruns hr)
          exact ⟨⟨fun _ _ => rfl, hrestore.counted, hrestore.subscribed, hrestore.first⟩, halone⟩
      · intro _ key hkey
        rcases h.countedHeld hup key hkey with hvenue | hfailed | hawaits | hreleasing
        · exact .inl hvenue
        · exact .inr (.inl hfailed)
        · exact absurd hawaits (hnone key)
        · exact .inr (.inr (.inr hreleasing))
    · rename_i hstate
      refine h.went rfl ?_ ?_ ?_ fun hrestoring => absurd hrestoring hstate
      · rintro r (hr | hr)
        · exact absurd hr.symm (Option.some_ne_none r)
        · exact h.runs_ok (hruns hr)
      · rintro - key - (hfailed | hawaits)
        · exact .inr (.inl hfailed)
        · exact absurd hawaits (hnone key)
      · intro hready
        rw [h.ready hready] at hsupervisor
        cases hsupervisor
  · exact h

/-- While no request is out, no call and no restore has one. -/
theorem quiet_iff : w.quiet = true ↔ (∀ id c, w.calls.get? id = some c → c.flight = none) ∧
    ∀ r, w.Runs r → r.answer? = none := by
  rw [World.quiet, Bool.and_eq_true, Bool.and_eq_true, List.all_eq_true, and_assoc]
  refine and_congr ?_ ?_
  · constructor
    · intro hall id c hget
      simpa using hall c (Dict.mem_values.mpr ⟨id, hget⟩)
    · intro hall c hmem
      obtain ⟨id, hget⟩ := Dict.mem_values.mp hmem
      simpa using hall id c hget
  · unfold Runs
    cases w.bringUpRestore <;> cases w.retryRestore <;> simp [or_imp, forall_and]

/-- The loss of the connection takes the venue's subscriptions with it. -/
theorem Agreed.lose (h : w.Agreed) : w.lose.Agreed := by
  unfold World.lose
  split
  · exact h
  · rename_i hquiet
    obtain ⟨hcalls, hrestores⟩ := quiet_iff.mp (by simpa using hquiet)
    have hempty (key : Key) : key ∉ (∅ : Finset Key) := Finset.notMem_empty key
    refine h.moved rfl ?_ ?_ (fun key hkey => absurd hkey (hempty key))
      (fun key hkey => absurd hkey (hempty key)) nofun (fun _ => rfl) nofun nofun
    · intro id c f hget hf
      exact nomatch (hcalls id c hget).symm.trans hf
    · intro r hr
      have hbefore : w.Runs r := by
        rcases hr with hr | hr
        · refine .inl ?_
          unfold World.bringUpRestore at hr ⊢
          cases hsupervisor : w.supervisor <;> simp_all
        · exact .inr hr
      obtain ⟨hrestore, halone⟩ := h.runs_ok hbefore
      exact ⟨hrestore.waiting (hrestores r hbefore) _, halone⟩

/-- A retry of the failed restores begins. -/
theorem Agreed.retryBegins (h : w.Agreed) (keys : List Key) : (w.retryBegins keys).Agreed := by
  unfold World.retryBegins
  split
  · refine h.went rfl ?_ (fun _ _ _ hor => .inr hor) h.ready h.restoring
    rintro r (hr | hr)
    · exact h.runs_ok (.inl hr)
    · exact nomatch hr
  · exact h

/-- A retry that stops leaves the failed restores. -/
theorem Agreed.retryStops (h : w.Agreed) : ({ w with retry := none } : World).Agreed := by
  refine h.went rfl ?_ (fun _ _ _ hor => .inr hor) h.ready h.restoring
  rintro r (hr | hr)
  · exact h.runs_ok (.inl hr)
  · exact nomatch hr

/-- A retry goes on, without a key whose restore is gone or done. -/
theorem Agreed.retryGoesOn (h : w.Agreed) (left : List Key) {key : Key}
    (hdone : key ∈ w.subscribed ∨ w.counted key = ∅) :
    ({ w with retry := some ⟨left, none⟩, failed := w.failed.erase key } : World).Agreed := by
  refine h.went rfl ?_ ?_ h.ready h.restoring
  · rintro r (hr | hr)
    · exact h.runs_ok (.inl hr)
    · exact nomatch hr
  · rintro - k hcounted (hfailed | hawaits)
    · by_cases hk : k = key
      · subst hk
        exact .inl (hdone.resolve_right hcounted)
      · exact .inr (.inl (Finset.mem_erase.mpr ⟨hk, hfailed⟩))
    · exact .inr (.inr hawaits)

/-- It goes on with the next key. -/
theorem Agreed.retryNext (h : w.Agreed) : w.retryNext.Agreed := by
  unfold World.retryNext
  split
  · exact h.retryStops
  · rename_i key left hretry
    split
    · exact h.retryStops
    · split
      · rename_i hgone
        rw [h.registered.restores, not_not] at hgone
        exact h.retryGoesOn left (.inr hgone)
      · refine h.went rfl ?_ (fun _ _ _ hor => .inr hor) h.ready h.restoring
        rintro r (hr | hr)
        · exact h.runs_ok (.inl hr)
        · obtain rfl := Option.some.inj hr
          exact restoreOk_new w key
  · exact h

/-! ## The turns of a restore -/

/-- A subscribe takes nothing away. -/
theorem subset_venueSubscribe (w : World) (accept : Bool) (key : Key) :
    w.subscribed ⊆ (w.venueSubscribe accept key).1 := by
  unfold World.venueSubscribe
  split
  · exact Finset.subset_insert _ _
  · exact Finset.Subset.refl _

/-- A restore whose request is out holds its key's lock. -/
theorem restore_holds {answer : Option Bool} (hstage : r.stage = .asks answer) :
    r.holds r.key = true := by
  simp [Restore.holds, hstage]

/-- No release of the key that a restore's request is about is out. -/
theorem Agreed.request_not_released (h : w.Agreed) (hr : w.Runs r) {answer : Option Bool}
    (hstage : r.stage = .asks answer) {id : ℕ} {c : Call} (hget : w.calls.get? id = some c)
    {f : Flight} (hf : c.flight = some f) (hunsubscribe : f.subscribe = false) :
    f.key ≠ r.request := by
  have hrestore := h.restoresOk r hr
  have hlocked {key : Key} (hkey : r.key = key) (hholds : c.holds key = true) : False := by
    have hfree := h.restoreLocks id c r key hget hr hholds
    exact Bool.false_ne_true (hfree.symm.trans (hkey ▸ restore_holds hstage))
  intro hkey
  unfold Restore.request at hkey
  by_cases hfirst : r.first = true
  · -- The spots are held for the restore's trendbars, so their last consumer is the leg of these.
    rw [if_pos hfirst] at hkey
    obtain ⟨other, hother⟩ := Finset.nonempty_iff_ne_empty.mpr (hrestore.counted answer hstage)
    have htrendbar := hrestore.first hfirst
    have hleg := h.legs r.key other htrendbar hother
    obtain ⟨hholds, hsame, -, -⟩ :=
      h.releasing_leg hget hf hunsubscribe htrendbar hkey.symm (hkey ▸ hleg)
    exact hlocked hsame hholds
  · rw [if_neg hfirst] at hkey
    exact hlocked hkey.symm (holds_of_flight hf)

/-- The venue's action on a restore's request keeps the agreement. -/
theorem Agreed.restoreActed (h : w.Agreed) (hr : w.Runs r) {answer : Option Bool}
    (hstage : r.stage = .asks answer) (accept : Bool) :
    ({ w with subscribed := (w.venueSubscribe accept r.request).1 } : World).Agreed := by
  have hrestore := h.restoresOk r hr
  have hmono := subset_venueSubscribe w accept r.request
  refine h.moved rfl ?_ ?_ ?_ (venueSubscribe_spots h.venueSpots accept r.request) ?_ ?_ h.ready
    h.restoring
  · intro id c f hget hf
    have hflight := (h.callsOk id c hget).flight f hf
    refine ⟨hflight.accepting, fun hsubscribe => ?_, fun hunsubscribe => ?_⟩
    · obtain ⟨hnone, hvenue⟩ := hflight.acquiring hsubscribe
      exact ⟨hnone, fun haccepted => hmono (hvenue haccepted)⟩
    · obtain ⟨hlast, hvenue⟩ := hflight.releasing hunsubscribe
      have hne := h.request_not_released hr hstage hget hf hunsubscribe
      exact ⟨hlast, fun hacted hmem => hvenue hacted ((mem_venueSubscribe hne).mp hmem)⟩
  · intro r' hr'
    obtain ⟨hrestore', halone⟩ := h.runs_ok hr'
    exact ⟨⟨hrestore'.accepting, hrestore'.counted,
      fun hasks hlast => hmono (hrestore'.subscribed hasks hlast), hrestore'.first⟩, halone⟩
  · intro key hmem
    by_cases hkey : key = r.request
    · have hcounted := hrestore.counted answer hstage
      refine .inl ?_
      rw [hkey, Restore.request]
      split
      · rename_i hfirst
        obtain ⟨other, hother⟩ := Finset.nonempty_iff_ne_empty.mpr hcounted
        exact Finset.ne_empty_of_mem (h.legs r.key other (hrestore.first hfirst) hother)
      · exact hcounted
    · exact h.venueCounted key ((mem_venueSubscribe hkey).mp hmem)
  · intro hup key hcounted
    rcases h.countedHeld hup key hcounted with hvenue | hor
    · exact .inl (hmono hvenue)
    · exact .inr hor
  · intro hdown
    exact absurd (hdown.symm.trans (hrestore.accepting answer hstage)) Bool.false_ne_true

/-- What a turn of a restore comes to. -/
def TurnOk (w : World) (r : Restore) : Restore ⊕ RestoreEnd → Prop
  | .inl r' => r'.key = r.key ∧ w.RestoreOk r' ∧ w.Alone r'
  | .inr .done => r.key ∈ w.subscribed ∨ w.counted r.key = ∅
  | .inr .refused => True
  | .inr .lost => w.accepting = false

/-- A turn of a restore. -/
theorem Agreed.restoreTurned (h : w.Agreed) (hr : w.Runs r) {turn : RestoreTurn}
    {subscribed : Finset Key} {result : Restore ⊕ RestoreEnd}
    (hturn : w.restoreTurn r turn = some (subscribed, result)) :
    ({ w with subscribed } : World).Agreed ∧ ({ w with subscribed } : World).TurnOk r result := by
  have hrestore := h.restoresOk r hr
  -- a restore takes its lock, the venue acts on it, and its answer comes
  cases turn with
  | enters =>
    rw [World.restoreTurn] at hturn
    split at hturn
    · rename_i hfree
      obtain ⟨rfl, rfl⟩ := Prod.mk.inj (Option.some.inj hturn)
      refine ⟨h, ?_⟩
      unfold World.restoreEnters
      split
      · rename_i hnone
        exact .inr hnone
      · rename_i hcounted
        split
        · rename_i hup
          refine ⟨rfl, ⟨fun _ _ => hup, fun _ _ => hcounted, by rintro ⟨⟩, hrestore.first⟩, ?_⟩
          intro id c key hget hholds
          by_contra hlocked
          have hkey : key = r.key := by simpa [Restore.holds] using hlocked
          have hother := (free_iff.mp hfree.2).1 id c hget
          exact Bool.false_ne_true (hother.symm.trans (hkey ▸ hholds))
        · rename_i hdown
          exact Bool.eq_false_of_not_eq_true hdown
    · cases hturn
  | acted accept =>
    rw [World.restoreTurn] at hturn
    split at hturn
    · rename_i hstage
      obtain ⟨rfl, rfl⟩ := Prod.mk.inj (Option.some.inj hturn)
      refine ⟨h.restoreActed hr hstage accept, rfl,
        ⟨fun _ _ => hrestore.accepting _ hstage, fun _ _ => hrestore.counted _ hstage, ?_,
          hrestore.first⟩, ?_⟩
      · intro hasks hlast
        have haccepted : (w.venueSubscribe accept r.request).2 = true := by simpa using hasks
        have hkey : r.request = r.key := by
          rw [Restore.request, if_neg (by rw [show r.first = false from hlast]; decide)]
        have hmem := venueSubscribe_accepted haccepted
        exact hkey ▸ hmem
      · intro id c key hget hholds
        have halone := h.alone hr id c key hget hholds
        simpa [Restore.holds, hstage] using halone
    · cases hturn
  | answered =>
    rw [World.restoreTurn] at hturn
    split at hturn
    · rename_i ok hstage
      obtain ⟨rfl, rfl⟩ := Prod.mk.inj (Option.some.inj hturn)
      refine ⟨h, ?_⟩
      unfold World.restoreAnswered
      split
      · exact trivial
      · rename_i haccepted
        have hok : ok = true := by simpa using haccepted
        split
        · refine ⟨rfl, ⟨by rintro _ ⟨⟩, by rintro _ ⟨⟩, by rintro ⟨⟩, by rintro ⟨⟩⟩, ?_⟩
          intro id c key _ _
          rfl
        · rename_i hlast
          exact .inl (hrestore.subscribed (by rw [hstage, hok]) (by simpa using hlast))
    · cases hturn

/-- The bring-up's loop goes on. -/
theorem Agreed.bringUpTurn (h : w.Agreed) {left : List Key}
    (hsupervisor : w.supervisor = .restores left (some r)) {result : Restore ⊕ RestoreEnd}
    (hturn : w.TurnOk r result) : (w.bringUpTurn left r.key result).Agreed := by
  have hretry {r' : Restore} (hr : w.retryRestore = some r') : w.RestoreOk r' ∧ w.Alone r' :=
    h.runs_ok (.inr hr)
  have hnotReady : w.state ≠ .ready := fun hready => nomatch hsupervisor.symm.trans (h.ready hready)
  -- a key the bring-up owes is one it has left, or that of the current restore
  have hawaits {k : Key} (hk : w.Awaits k) : k ∈ left ∨ r.key = k := by
    obtain ⟨left', current, hrestores, hor⟩ := hk
    rw [hsupervisor] at hrestores
    cases hrestores
    rcases hor with hleft | ⟨r', hr', hkey⟩
    · exact .inl hleft
    · exact .inr (Option.some.inj hr' ▸ hkey)
  match result with
  | .inl r' =>
    obtain ⟨hkey, hrestore, halone⟩ := hturn
    refine h.went rfl ?_ ?_ (fun hready => absurd hready hnotReady) fun _ => ⟨_, _, rfl⟩
    · rintro _ (hr | hr)
      · obtain rfl := Option.some.inj hr
        exact ⟨hrestore, halone⟩
      · exact hretry hr
    · rintro - k - (hfailed | hk)
      · exact .inr (.inl hfailed)
      · refine .inr (.inr ⟨_, _, rfl, ?_⟩)
        rcases hawaits hk with hleft | hcurrent
        · exact .inl hleft
        · exact .inr ⟨r', rfl, hkey.trans hcurrent⟩
  | .inr .done =>
    refine h.went rfl ?_ ?_ (fun hready => absurd hready hnotReady) fun _ => ⟨_, _, rfl⟩
    · rintro _ (hr | hr)
      · exact nomatch hr
      · exact hretry hr
    · rintro - k hcounted (hfailed | hk)
      · exact .inr (.inl hfailed)
      · rcases hawaits hk with hleft | rfl
        · exact .inr (.inr ⟨_, _, rfl, .inl hleft⟩)
        · exact .inl (hturn.resolve_right hcounted)
  | .inr .refused =>
    refine h.went rfl ?_ ?_ (fun hready => absurd hready hnotReady) fun _ => ⟨_, _, rfl⟩
    · rintro _ (hr | hr)
      · exact nomatch hr
      · exact hretry hr
    · rintro - k - (hfailed | hk)
      · exact .inr (.inl (Finset.mem_insert_of_mem hfailed))
      · rcases hawaits hk with hleft | rfl
        · exact .inr (.inr ⟨_, _, rfl, .inl hleft⟩)
        · exact .inr (.inl (Finset.mem_insert_self _ _))
  | .inr .lost =>
    have hdown : w.accepting = false := hturn
    refine h.downMove hdown rfl hdown ?_
    rintro _ (hr | hr)
    · exact nomatch hr
    · exact .inr hr

/-- A retry's loop goes on. -/
theorem Agreed.retryTurn (h : w.Agreed) {left : List Key} {generation : ℕ}
    {result : Restore ⊕ RestoreEnd} (hturn : w.TurnOk r result) :
    (w.retryTurn left r.key generation result).Agreed := by
  have hgoesOn : ({ w with retry := some ⟨left, none⟩ } : World).Agreed := by
    refine h.went rfl ?_ (fun _ _ _ hor => .inr hor) h.ready h.restoring
    rintro _ (hr | hr)
    · exact h.runs_ok (.inl hr)
    · exact nomatch hr
  match result with
  | .inl r' =>
    obtain ⟨-, hrestore, halone⟩ := hturn
    refine h.went rfl ?_ (fun _ _ _ hor => .inr hor) h.ready h.restoring
    rintro _ (hr | hr)
    · exact h.runs_ok (.inl hr)
    · obtain rfl := Option.some.inj hr
      exact ⟨hrestore, halone⟩
  | .inr .done =>
    rw [World.retryTurn]
    · split
      · exact h.retryStops
      · exact h.retryGoesOn left hturn
    · exact nofun
  | .inr .refused =>
    rw [World.retryTurn]
    · split
      · exact h.retryStops
      · exact hgoesOn
    · exact nofun
  | .inr .lost => exact h.retryStops

/-- A turn of the bring-up's restore. -/
theorem Agreed.bringUpRuns (h : w.Agreed) (turn : RestoreTurn) : (w.bringUpRuns turn).Agreed := by
  unfold World.bringUpRuns
  split
  · rename_i left r hsupervisor
    split
    · exact h
    · rename_i subscribed result hturn
      have hr : w.Runs r := .inl (by rw [World.bringUpRestore, hsupervisor])
      obtain ⟨hacted, hok⟩ := h.restoreTurned hr hturn
      exact hacted.bringUpTurn hsupervisor hok
  · exact h

/-- A turn of the retry's restore. -/
theorem Agreed.retryRuns (h : w.Agreed) (turn : RestoreTurn) : (w.retryRuns turn).Agreed := by
  unfold World.retryRuns
  split
  · rename_i left r generation hretry
    split
    · exact h
    · rename_i subscribed result hturn
      have hr : w.Runs r := .inr (by rw [World.retryRestore, hretry]; rfl)
      obtain ⟨hacted, hok⟩ := h.restoreTurned hr hturn
      exact hacted.retryTurn hok
  · exact h

end World

/-! ## Runs -/

/-- No spots are asked for, or released, under the name of a trendbar consumer's spots leg. -/
def Action.Plain : Action → Prop
  | .call _ _ key consumer => key.IsTrendbar ∨ ¬ NamedAsLeg consumer
  | _ => True

/-- Nothing is subscribed at the start. -/
theorem agreed_initial : ({} : World).Agreed := by
  have hcalls (id : ℕ) (c : Call) : ({} : World).calls.get? id ≠ some c := nofun
  have hcounted (key : Key) : ({} : World).counted key = ∅ := rfl
  have hruns (r : Restore) : ¬ ({} : World).Runs r := by
    rintro (hr | hr)
    · exact nomatch hr
    · exact nomatch hr
  refine ⟨⟨nofun, fun key => ?_⟩, fun id _ c _ _ hget => absurd hget (hcalls id c),
    fun id c _ _ hget => absurd hget (hcalls id c), fun id c hget => absurd hget (hcalls id c),
    fun r hr => absurd hr (hruns r), ?_, ?_, ?_, nofun, fun _ => rfl, nofun, nofun⟩
  · exact ⟨fun hmem => absurd hmem List.not_mem_nil, fun hne => absurd (hcounted key) hne⟩
  · intro key consumer _ hmem
    exact absurd hmem (Finset.notMem_empty consumer)
  · intro key hmem
    exact absurd hmem (Finset.notMem_empty key)
  · intro key hmem
    exact absurd hmem (Finset.notMem_empty key)

/-- Every plain step keeps the agreement. -/
theorem step_agreed {w : World} (h : w.Agreed) {action : Action} (hplain : action.Plain) :
    (w.step action).Agreed := by
  cases action with
  | call id subscribe key consumer =>
    rw [World.step]
    split
    · exact h
    · rename_i hnew
      rw [Dict.contains, Option.isSome_iff_ne_none, not_not] at hnew
      exact h.begun hnew fun hspots => hplain.resolve_left hspots
  | enters id => exact h.enter id
  | acted id accept => exact h.actOn id accept
  | answered id => exact h.answered id
  | bringUp => exact h.bringUp
  | connected => exact h.connected
  | authenticated => exact h.authenticated
  | restoreNext => exact h.restoreNext
  | bringUpRuns turn => exact h.bringUpRuns turn
  | restored => exact h.restored
  | lose => exact h.lose
  | retryBegins keys => exact h.retryBegins keys
  | retryNext => exact h.retryNext
  | retryRuns turn => exact h.retryRuns turn

/-- Every plain run keeps it. -/
theorem machine_agreed {actions : List Action} (hplain : ∀ action ∈ actions, action.Plain) :
    (machine.after {} actions).Agreed := by
  have hstep (w : World) (action : Action) (h : w.Agreed) (hp : action.Plain) :
      (machine.step w action).1.Agreed := step_agreed h hp
  have halways : machine.Always (fun _ action => action.Plain) {} actions :=
    Machine.always_of_forall (fun action hmem _ => hplain action hmem) _
  exact Machine.after_invariant_of_always hstep agreed_initial halways

/-- After any run without the name of a spots leg, a trendbar consumer holds the spots, and the venue
holds no trendbars without them; and where no call runs, the session is ready and no restore failed, the
venue holds exactly what is counted. -/
theorem subscriptions_agree (actions : List Action) (hplain : ∀ action ∈ actions, action.Plain) :
    (∀ symbolId period consumer,
      consumer ∈ (machine.after {} actions).counted (.trendbar symbolId period) →
        trendbarSpotConsumer period consumer ∈
          (machine.after {} actions).counted (.spots symbolId)) ∧
    (∀ symbolId period, .trendbar symbolId period ∈ (machine.after {} actions).subscribed →
      .spots symbolId ∈ (machine.after {} actions).subscribed) ∧
    ((∀ id, (machine.after {} actions).calls.get? id = none) →
      (machine.after {} actions).state = .ready → (machine.after {} actions).failed = ∅ →
        ∀ key, key ∈ (machine.after {} actions).subscribed ↔
          (machine.after {} actions).counted key ≠ ∅) := by
  have h := machine_agreed hplain
  refine ⟨fun symbolId period consumer hmem => ?_, fun symbolId period hmem => ?_,
    fun hcalls hready hfailed key => ⟨fun hmem => ?_, fun hcounted => ?_⟩⟩
  · exact h.legs _ consumer (Key.isTrendbar_trendbar symbolId period) hmem
  · exact h.venueSpots _ hmem
  · rcases h.venueCounted key hmem with hcounted | ⟨id, c, hget, -⟩
    · exact hcounted
    · exact absurd (hget.symm.trans (hcalls id)) (Option.some_ne_none c)
  · have hup : (machine.after {} actions).accepting = true := by
      rw [World.accepting, hready]
      rfl
    rcases h.countedHeld hup key hcounted with hvenue | hfails | ⟨left, current, hrestores, -⟩ |
      ⟨id, c, hget, -⟩
    · exact hvenue
    · exact absurd (hfailed ▸ hfails) (Finset.notMem_empty key)
    · rw [h.ready hready] at hrestores
      cases hrestores
    · exact absurd (hget.symm.trans (hcalls id)) (Option.some_ne_none c)

/-- The name of a spots leg says that it is one. -/
theorem name_of_namedAsLeg {consumer : Consumer} (h : NamedAsLeg consumer) :
    "trendbar:".toList <+: consumer.name.toList := by
  obtain ⟨period, other, rfl⟩ := h
  rw [trendbarSpotConsumer, String.toList_append, String.toList_append, String.toList_append,
    List.append_assoc, List.append_assoc]
  exact List.prefix_append _ _

/-- The session becomes ready with nothing to restore. -/
def comesUp : List Action := [.bringUp, .connected, .authenticated, .restored]

/-- One consumer's trendbars of symbol 1, and the spots with them. -/
def takesBars : List Action :=
  [.call 0 true (.trendbar 1 5) ⟨"data", "bars"⟩, .enters 0, .enters 0, .acted 0 true, .answered 0,
    .acted 0 true, .answered 0]

/-- The connection is lost, and two keys are restored on the next one. -/
def reconnects : List Action :=
  [.lose, .bringUp, .connected, .authenticated, .restoreNext, .bringUpRuns .enters,
    .bringUpRuns (.acted true), .bringUpRuns .answered, .restoreNext, .bringUpRuns .enters,
    .bringUpRuns (.acted true), .bringUpRuns .answered, .bringUpRuns .enters,
    .bringUpRuns (.acted true), .bringUpRuns .answered, .restored]

/-- Trendbars and the quotes of their symbol are restored after a reconnect, and held as counted then. -/
theorem subscriptions_agree_restored :
    let actions := comesUp ++ takesBars ++
      [.call 1 true (.spots 1) ⟨"data", "quotes"⟩, .enters 1] ++ reconnects
    (machine.after {} actions).subscribed = {.spots 1, .trendbar 1 5} ∧
      ∀ key, key ∈ (machine.after {} actions).subscribed ↔
        (machine.after {} actions).counted key ≠ ∅ := by
  have hquotes : ¬ NamedAsLeg ⟨"data", "quotes"⟩ := by
    intro hnamed
    exact absurd (name_of_namedAsLeg hnamed) (by decide)
  have hcalls : (machine.after {} (comesUp ++ takesBars ++
      [.call 1 true (.spots 1) ⟨"data", "quotes"⟩, .enters 1] ++ reconnects)).calls =
        Dict.empty := by decide +kernel
  refine ⟨by decide +kernel, ?_⟩
  refine (subscriptions_agree _ ?_).2.2 (fun id => ?_) (by decide +kernel) (by decide +kernel)
  · simp [comesUp, takesBars, reconnects, Action.Plain, Key.isTrendbar_trendbar, hquotes]
  · rw [hcalls]
    rfl

/-- Spots released under the name of a trendbar consumer's leg go, and the trendbars stay. -/
theorem release_of_leg_name :
    let actions := comesUp ++ takesBars ++
      [.call 1 false (.spots 1) ⟨"data", "trendbar:5:bars"⟩, .enters 1, .acted 1 true, .answered 1]
    (machine.after {} actions).calls = Dict.empty ∧ (machine.after {} actions).state = .ready ∧
      (machine.after {} actions).failed = ∅ ∧
      (⟨"data", "bars"⟩ : Consumer) ∈ (machine.after {} actions).counted (.trendbar 1 5) ∧
      (machine.after {} actions).counted (.spots 1) = ∅ ∧
      .trendbar 1 5 ∈ (machine.after {} actions).subscribed ∧
      .spots 1 ∉ (machine.after {} actions).subscribed := by
  decide +kernel

end Subscriptions

end NautilusCtrader
