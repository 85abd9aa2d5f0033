import NautilusCtrader.Subscriptions.Counting

/-!
# The registry and the venue agree

What is counted and what the venue holds differ only where a request is out or a restore is still to
come. `Agreed` says so at every await; each turn keeps it, so it holds in every state a run leads to.
-/

namespace NautilusCtrader

open Common

namespace Subscriptions

/-! ## The invariant -/

namespace Call

variable (c : Call)

/-- Whether the venue has accepted the call's subscribe of a key. -/
def Acquires (key : Key) : Prop :=
  ∃ f, c.flight = some f ∧ f.subscribe = true ∧ f.key = key ∧ f.answer = some true

/-- Whether the call's unsubscribe of a key is out. -/
def Releases (key : Key) : Prop := ∃ f, c.flight = some f ∧ f.subscribe = false ∧ f.key = key

/-- What the call uses the spots' lock for, once it holds its own key's. -/
def use? : Option LegUse :=
  match c.stage with
  | .legWaits use | .legAsks use _ => some use
  | _ => none

end Call

namespace World

/-- A request that is out, under its key's lock: a subscribe is of a key nobody holds, an unsubscribe of
the last consumer's; the answer is what the venue holds. -/
structure FlightOk (w : World) (f : Flight) : Prop where
  accepting : w.accepting = true
  acquiring : f.subscribe = true →
    w.counted f.key = ∅ ∧ (f.answer = some true → f.key ∈ w.subscribed)
  releasing : f.subscribe = false →
    w.counted f.key = {f.consumer} ∧ (f.answer.isSome = true → f.key ∉ w.subscribed)

/-- What a call may rely on where it stands. -/
structure CallOk (w : World) (c : Call) : Prop where
  flight : ∀ f, c.flight = some f → w.FlightOk f
  leg : ∀ use, c.use? = some use → c.key.IsTrendbar ∧ c.consumer ∉ w.counted c.key
  taken : c.use? = some .take → c.subscribe = true
  held : c.subscribe = true → ∀ answer, c.stage = .asks answer → c.key.IsTrendbar →
    c.leg ∈ w.counted c.key.spotsKey
  named : ¬ c.key.IsTrendbar → ¬ NamedAsLeg c.consumer

/-- Whether a task of the session runs a restore. -/
def Runs (w : World) (r : Restore) : Prop := w.bringUpRestore = some r ∨ w.retryRestore = some r

/-- A restore's request is out, under its key's lock: the key is counted. -/
structure RestoreOk (w : World) (r : Restore) : Prop where
  accepting : ∀ answer, r.stage = .asks answer → w.accepting = true
  counted : ∀ answer, r.stage = .asks answer → w.counted r.key ≠ ∅
  subscribed : r.stage = .asks (some true) → r.first = false → r.key ∈ w.subscribed
  first : r.first = true → r.key.IsTrendbar

/-- Whether the bring-up's restore of a key is still to come. -/
def Awaits (w : World) (key : Key) : Prop :=
  ∃ left current, w.supervisor = .restores left current ∧
    (key ∈ left ∨ ∃ r, current = some r ∧ r.key = key)

/-- What holds at every await. -/
structure Agreed (w : World) : Prop where
  registered : w.Registered
  /-- A lock has one holder. -/
  locks : ∀ id id' c c' key, w.calls.get? id = some c → w.calls.get? id' = some c' →
    c.holds key = true → c'.holds key = true → id = id'
  restoreLocks : ∀ id c r key, w.calls.get? id = some c → w.Runs r → c.holds key = true →
    r.holds key = false
  callsOk : ∀ id c, w.calls.get? id = some c → w.CallOk c
  restoresOk : ∀ r, w.Runs r → w.RestoreOk r
  /-- A trendbar consumer holds the spots. -/
  legs : ∀ key consumer, key.IsTrendbar → consumer ∈ w.counted key →
    key.leg consumer ∈ w.counted key.spotsKey
  /-- What the venue holds is counted, or about to be. -/
  venueCounted : ∀ key ∈ w.subscribed, w.counted key ≠ ∅ ∨
    ∃ id c, w.calls.get? id = some c ∧ c.Acquires key
  venueSpots : ∀ key ∈ w.subscribed, key.spotsKey ∈ w.subscribed
  /-- What is counted is held by the venue, unless its restore failed or is to come, or it is being
  released. -/
  countedHeld : w.accepting = true → ∀ key, w.counted key ≠ ∅ →
    key ∈ w.subscribed ∨ key ∈ w.failed ∨ w.Awaits key ∨
      ∃ id c, w.calls.get? id = some c ∧ c.Releases key
  down : w.accepting = false → w.subscribed = ∅
  ready : w.state = .ready → w.supervisor = .up
  restoring : w.state = .restoring → ∃ left current, w.supervisor = .restores left current

/-! ## One turn of a call

`Mid` relates the world before a call's turn to the one in the middle of it, after some counting under
the locks the call holds or takes. -/

/-- A key whose lock the call holds, or takes in this turn. -/
def Locked (w : World) (c : Call) (key : Key) : Prop := c.holds key = true ∨ w.free key = true

/-- `w'` is `w` after some of the counting of a turn of `c`. -/
structure Mid (w w' : World) (c : Call) : Prop where
  same : w' = { w with consumers := w'.consumers, restores := w'.restores, failed := w'.failed }
  registered : w'.Registered
  counted : ∀ key, w'.counted key = w.counted key ∨ w.Locked c key
  /-- The call releases nobody but its own consumer and its leg. -/
  kept : ∀ key consumer, consumer ∈ w.counted key → consumer ∈ w'.counted key ∨
    key = c.key ∧ consumer = c.consumer ∨ key = c.key.spotsKey ∧ consumer = c.leg
  legs : ∀ key consumer, key.IsTrendbar → consumer ∈ w'.counted key →
    key.leg consumer ∈ w'.counted key.spotsKey
  /-- The venue holds none of the keys let go. -/
  gone : ∀ key, w.counted key ≠ ∅ → w'.counted key = ∅ → key ∉ w.subscribed
  /-- A key that is counted was so before, or the venue holds it. -/
  still : w.accepting = true → ∀ key, w'.counted key ≠ ∅ →
    w.counted key ≠ ∅ ∧ (key ∈ w.failed → key ∈ w'.failed) ∨ key ∈ w.subscribed

variable {w w' w'' : World} {c : Call} {id : ℕ}

/-- A call that has done nothing yet is in the middle of nothing. -/
theorem Mid.refl (h : w.Agreed) (c : Call) : w.Mid w c where
  same := rfl
  registered := h.registered
  counted _ := .inl rfl
  kept _ _ hmem := .inl hmem
  legs := h.legs
  gone _ hne hempty := absurd hempty hne
  still _ _ hne := .inl ⟨hne, id⟩

namespace Mid

/-- The venue holds what it held. -/
theorem subscribed_eq (h : w.Mid w' c) : w'.subscribed = w.subscribed := by rw [h.same]

/-- The session's state is as it was. -/
theorem state_eq (h : w.Mid w' c) : w'.state = w.state := by rw [h.same]

/-- So is the bring-up. -/
theorem supervisor_eq (h : w.Mid w' c) : w'.supervisor = w.supervisor := by rw [h.same]

/-- So is the retry. -/
theorem retry_eq (h : w.Mid w' c) : w'.retry = w.retry := by rw [h.same]

/-- So are the calls. -/
theorem calls_eq (h : w.Mid w' c) : w'.calls = w.calls := by rw [h.same]

/-- Requests are taken as before. -/
theorem accepting_eq (h : w.Mid w' c) : w'.accepting = w.accepting := by
  rw [World.accepting, World.accepting, h.state_eq]

/-- Counting a consumer on a locked key: a key newly counted is one the venue holds, and a trendbar
consumer's spots are held. -/
theorem count (h : w.Mid w' c) {key : Key} {consumer : Consumer}
    (hcount : w'.Recount w'' key (insert consumer (w'.counted key))) (hlocked : w.Locked c key)
    (hheld : w'.counted key = ∅ → w.accepting = true → key ∈ w.subscribed)
    (hleg : key.IsTrendbar → key.leg consumer ∈ w'.counted key.spotsKey) : w.Mid w'' c := by
  have hmono : ∀ k other, other ∈ w'.counted k → other ∈ w''.counted k := by
    intro k other hmem
    rw [hcount.counted_eq]
    split
    · rename_i hk
      exact Finset.mem_insert_of_mem (hk ▸ hmem)
    · exact hmem
  have hne : insert consumer (w'.counted key) ≠ ∅ := Finset.insert_ne_empty _ _
  refine ⟨by rw [hcount.same, h.same], hcount.registered, ?_, ?_, ?_, ?_, ?_⟩
  · intro k
    rw [hcount.counted_eq]
    split
    · rename_i hk
      exact .inr (hk ▸ hlocked)
    · exact h.counted k
  · intro k other hmem
    rcases h.kept k other hmem with hstays | hgoes
    · exact .inl (hmono k other hstays)
    · exact .inr hgoes
  · intro k other hk hmem
    rw [hcount.counted_eq] at hmem
    split at hmem
    · rename_i heq
      subst heq
      rcases Finset.mem_insert.mp hmem with rfl | hold
      · exact hmono _ _ (hleg hk)
      · exact hmono _ _ (h.legs k other hk hold)
    · exact hmono _ _ (h.legs k other hk hmem)
  · intro k hcounted hempty
    rw [hcount.counted_eq] at hempty
    split at hempty
    · exact absurd hempty hne
    · exact h.gone k hcounted hempty
  · intro haccepting k hcounted
    have hfailed : k ∈ w'.failed → k ∈ w''.failed := fun hk =>
      (hcount.failed k).mpr ⟨hk, fun _ => hne⟩
    by_cases hold : w'.counted k = ∅
    · rw [hcount.counted_eq] at hcounted
      split at hcounted
      · rename_i hk
        exact .inr (hk ▸ hheld (hk ▸ hold) haccepting)
      · exact absurd hold hcounted
    · rcases h.still haccepting k hold with ⟨hbefore, hkeeps⟩ | hvenue
      · exact .inl ⟨hbefore, hfailed ∘ hkeeps⟩
      · exact .inr hvenue

/-- Releasing the call's consumer, or its leg, on a locked key: the venue does not hold a key let go,
and a leg released is not that of a trendbar consumer still counted. -/
theorem uncount (h : w.Mid w' c) {key : Key} {consumer : Consumer} {rest : Finset Consumer}
    (hcount : w'.Recount w'' key rest) (hrest : rest = (w'.counted key).erase consumer)
    (hlocked : w.Locked c key)
    (hgone : rest = ∅ → key ∉ w.subscribed)
    (hwhose : key = c.key ∧ consumer = c.consumer ∨ key = c.key.spotsKey ∧ consumer = c.leg)
    (hleg : ∀ k other, k.IsTrendbar → k.spotsKey = key → other ∈ w'.counted k →
      k.leg other ≠ consumer) : w.Mid w'' c := by
  -- nobody is counted anew, and only the consumer leaves its key
  have hmono : ∀ k other, other ∈ w''.counted k → other ∈ w'.counted k := by
    intro k other hmem
    rw [hcount.counted_eq] at hmem
    split at hmem
    · rename_i hk
      exact hk ▸ Finset.mem_of_mem_erase (hrest ▸ hmem)
    · exact hmem
  have hstays : ∀ k other, other ∈ w'.counted k → other ∈ w''.counted k ∨
      k = key ∧ other = consumer := by
    intro k other hmem
    rw [hcount.counted_eq]
    split
    · rename_i hk
      by_cases hother : other = consumer
      · exact .inr ⟨hk, hother⟩
      · exact .inl (hrest ▸ Finset.mem_erase.mpr ⟨hother, hk ▸ hmem⟩)
    · exact .inl hmem
  refine ⟨by rw [hcount.same, h.same], hcount.registered, ?_, ?_, ?_, ?_, ?_⟩
  · intro k
    rw [hcount.counted_eq]
    split
    · rename_i hk
      exact .inr (hk ▸ hlocked)
    · exact h.counted k
  · intro k other hmem
    rcases h.kept k other hmem with hheld | hgoes
    · rcases hstays k other hheld with hstill | ⟨rfl, rfl⟩
      · exact .inl hstill
      · exact .inr hwhose
    · exact .inr hgoes
  · intro k other hk hmem
    have hold := hmono k other hmem
    -- a trendbar consumer still counted keeps its leg
    rcases hstays _ _ (h.legs k other hk hold) with hstill | ⟨hspots, hname⟩
    · exact hstill
    · exact absurd hname (hleg k other hk hspots hold)
  · intro k hcounted hempty
    by_cases hold : w'.counted k = ∅
    · exact h.gone k hcounted hold
    · rw [hcount.counted_eq] at hempty
      split at hempty
      · rename_i hk
        exact hk ▸ hgone hempty
      · exact absurd hempty hold
  · intro haccepting k hcounted
    have hold : w'.counted k ≠ ∅ := by
      obtain ⟨other, hother⟩ := Finset.nonempty_iff_ne_empty.mpr hcounted
      exact Finset.ne_empty_of_mem (hmono k other hother)
    rcases h.still haccepting k hold with ⟨hbefore, hkeeps⟩ | hvenue
    · refine .inl ⟨hbefore, fun hk => (hcount.failed k).mpr ⟨hkeeps hk, fun heq hempty => ?_⟩⟩
      rw [hcount.counted_eq, if_pos heq] at hcounted
      exact hcounted hempty
    · exact .inr hvenue

end Mid

/-- What is right of a call does not depend on the others. -/
theorem CallOk.withCalls {d : Call} (h : w'.CallOk d) (calls : Dict ℕ Call) :
    ({ w' with calls } : World).CallOk d :=
  ⟨fun f hf => ⟨(h.flight f hf).accepting, (h.flight f hf).acquiring, (h.flight f hf).releasing⟩,
    h.leg, h.taken, h.held, h.named⟩

/-- A key is free when no call and no restore holds its lock. -/
theorem free_iff {key : Key} : w.free key = true ↔
    (∀ id c, w.calls.get? id = some c → c.holds key = false) ∧ ∀ r, w.Runs r → r.holds key = false := by
  rw [World.free, Bool.and_eq_true, Bool.and_eq_true, List.all_eq_true, and_assoc]
  refine and_congr ?_ ?_
  · constructor
    · intro hall id c hget
      simpa using hall c (Dict.mem_values.mpr ⟨id, hget⟩)
    · intro hall c hmem
      obtain ⟨id, hget⟩ := Dict.mem_values.mp hmem
      simpa using hall id c hget
  · unfold Runs
    cases w.bringUpRestore <;> cases w.retryRestore <;> simp [or_imp, forall_and]

/-- A call that has taken its locks holds its own key's. -/
theorem holds_of_use {d : Call} {use : LegUse} (h : d.use? = some use) : d.holds d.key = true := by
  unfold Call.use? at h
  unfold Call.holds
  cases hstage : d.stage <;> simp_all

/-- A call that asks holds its own key's lock. -/
theorem holds_of_asks {d : Call} {answer : Option Bool} (h : d.stage = .asks answer) :
    d.holds d.key = true := by
  simp [Call.holds, h]

/-- A request that is out goes under its key's lock. -/
theorem holds_of_flight {d : Call} {f : Flight} (h : d.flight = some f) : d.holds f.key = true := by
  unfold Call.flight at h
  unfold Call.holds
  cases hstage : d.stage <;> rw [hstage] at h <;> cases h <;> simp

/-- A lock that a turn's call holds or takes is no other call's. -/
theorem Agreed.not_locked (h : w.Agreed) (hget : w.calls.get? id = some c) {id' : ℕ} {d : Call}
    (hd : w.calls.get? id' = some d) (hne : id' ≠ id) {key : Key} (hholds : d.holds key = true) :
    ¬ w.Locked c key := by
  rintro (hlock | hfree)
  · exact hne (h.locks id' id d c key hd hget hholds hlock)
  · exact Bool.false_ne_true (((free_iff.mp hfree).1 id' d hd).symm.trans hholds)

/-- A restore that holds a key keeps a call from locking it. -/
theorem Agreed.not_restoring (h : w.Agreed) (hget : w.calls.get? id = some c) {r : Restore}
    (hr : w.Runs r) {key : Key} (hholds : r.holds key = true) : ¬ w.Locked c key := by
  rintro (hlock | hfree)
  · exact Bool.false_ne_true ((h.restoreLocks id c r key hget hr hlock).symm.trans hholds)
  · exact Bool.false_ne_true (((free_iff.mp hfree).2 r hr).symm.trans hholds)

/-- Another call relies on nothing that a turn changed. -/
theorem Agreed.other (h : w.Agreed) (hget : w.calls.get? id = some c) (hown : w.Locked c c.key)
    (hm : w.Mid w' c) {id' : ℕ} {d : Call} (hd : w.calls.get? id' = some d) (hne : id' ≠ id) :
    w'.CallOk d := by
  have hok := h.callsOk id' d hd
  have hsame {key : Key} (hholds : d.holds key = true) : w'.counted key = w.counted key :=
    (hm.counted key).resolve_right (h.not_locked hget hd hne hholds)
  refine ⟨fun f hf => ?_, fun use huse => ?_, hok.taken, fun hsub answer hstage hkey => ?_, hok.named⟩
  · have hflight := hok.flight f hf
    have hcounted := hsame (holds_of_flight hf)
    refine ⟨hm.accepting_eq ▸ hflight.accepting, fun hsub => ?_, fun hsub => ?_⟩
    · rw [hcounted, hm.subscribed_eq]
      exact hflight.acquiring hsub
    · rw [hcounted, hm.subscribed_eq]
      exact hflight.releasing hsub
  · rw [hsame (holds_of_use huse)]
    exact hok.leg use huse
  · -- Only the call of the very leg could release it, and this one holds its lock.
    have hleg := Key.namedAsLeg_leg hkey d.consumer
    have hnamed := (h.callsOk id c hget).named
    have hnotLeg : ¬ c.key.IsTrendbar → d.leg = c.consumer → False := fun hc heq =>
      hnamed hc (heq ▸ hleg)
    rcases hm.kept _ _ (hok.held hsub answer hstage hkey) with hstays | ⟨hspots, hname⟩ | ⟨hspots, hname⟩
    · exact hstays
    · refine absurd hname (hnotLeg fun hc => hc ?_)
      rw [← hspots, Key.spotsKey_spotsKey]
    · by_cases hc : c.key.IsTrendbar
      · obtain ⟨hkeys, -⟩ := Key.leg_injective hkey hc hspots hname
        exact absurd (hkeys ▸ hown) (h.not_locked hget hd hne (holds_of_asks hstage))
      · have hplain : c.leg = c.consumer := by
          unfold Call.leg
          cases hckey : c.key with
          | spots _ => rfl
          | trendbar _ _ => exact absurd (hckey ▸ Key.isTrendbar_trendbar _ _) hc
        exact absurd (hname.trans hplain) (hnotLeg hc)

/-- A turn of a call keeps the agreement: what it counted under its locks, and where it left the call. -/
theorem Agreed.turned (h : w.Agreed) (hget : w.calls.get? id = some c) (hown : w.Locked c c.key)
    (hm : w.Mid w' c) (c' : Option Call)
    (hsame : w'' = { w' with calls := w''.calls })
    (hcalls : ∀ i, w''.calls.get? i = if i = id then c' else w.calls.get? i)
    (hlocks : ∀ d, c' = some d → ∀ key, d.holds key = true → w.Locked c key)
    (hok : ∀ d, c' = some d → w'.CallOk d)
    (hacquired : ∀ key, c.Acquires key → w'.counted key ≠ ∅)
    (hreleased : ∀ key, c.Releases key → w'.counted key = ∅) : w''.Agreed := by
  have hcounted (key : Key) : w''.counted key = w'.counted key := by rw [hsame]; rfl
  have hsubscribed : w''.subscribed = w.subscribed := by rw [hsame]; exact hm.subscribed_eq
  have hstate : w''.state = w.state := by rw [hsame]; exact hm.state_eq
  have hsupervisor : w''.supervisor = w.supervisor := by rw [hsame]; exact hm.supervisor_eq
  have hretry : w''.retry = w.retry := by rw [hsame]; exact hm.retry_eq
  have haccepting : w''.accepting = w.accepting := by rw [World.accepting, World.accepting, hstate]
  have hruns (r : Restore) : w''.Runs r ↔ w.Runs r := by
    simp only [Runs, World.bringUpRestore, World.retryRestore, hsupervisor, hretry]
  -- a call after the turn is the one that took it, or one from before
  have hother {i : ℕ} {d : Call} (hd : w''.calls.get? i = some d) :
      i = id ∧ c' = some d ∨ i ≠ id ∧ w.calls.get? i = some d := by
    rw [hcalls] at hd
    by_cases hi : i = id
    · rw [if_pos hi] at hd
      exact .inl ⟨hi, hd⟩
    · rw [if_neg hi] at hd
      exact .inr ⟨hi, hd⟩
  have hstays {i : ℕ} {d : Call} (hi : i ≠ id) (hd : w.calls.get? i = some d) :
      w''.calls.get? i = some d := by rw [hcalls, if_neg hi, hd]
  refine ⟨?_, ?_, ?_, ?_, ?_, ?_, ?_, ?_, ?_, ?_, ?_, ?_⟩
  · rw [hsame]
    exact ⟨hm.registered.sets, hm.registered.restores⟩
  · intro i i' d d' key hd hd' hholds hholds'
    rcases hother hd with ⟨rfl, hnew⟩ | ⟨hi, hold⟩
    · rcases hother hd' with ⟨rfl, -⟩ | ⟨hi', hold'⟩
      · rfl
      · exact absurd (hlocks d hnew key hholds) (h.not_locked hget hold' hi' hholds')
    · rcases hother hd' with ⟨rfl, hnew'⟩ | ⟨hi', hold'⟩
      · exact absurd (hlocks d' hnew' key hholds') (h.not_locked hget hold hi hholds)
      · exact h.locks i i' d d' key hold hold' hholds hholds'
  · intro i d r key hd hr hholds
    rw [hruns] at hr
    rcases hother hd with ⟨rfl, hnew⟩ | ⟨hi, hold⟩
    · by_contra hrestore
      exact h.not_restoring hget hr (by simpa using hrestore) (hlocks d hnew key hholds)
    · exact h.restoreLocks i d r key hold hr hholds
  · intro i d hd
    rw [hsame]
    rcases hother hd with ⟨rfl, hnew⟩ | ⟨hi, hold⟩
    · exact (hok d hnew).withCalls _
    · exact (h.other hget hown hm hold hi).withCalls _
  · intro r hr
    rw [hruns] at hr
    have hrestore := h.restoresOk r hr
    refine ⟨?_, fun answer hstage => ?_, ?_, hrestore.first⟩
    · rw [haccepting]
      exact hrestore.accepting
    · have hholds : r.holds r.key = true := by simp [Restore.holds, hstage]
      rw [hcounted, (hm.counted r.key).resolve_right (h.not_restoring hget hr hholds)]
      exact hrestore.counted answer hstage
    · rw [hsubscribed]
      exact hrestore.subscribed
  · intro key consumer hkey hmem
    rw [hcounted] at hmem ⊢
    exact hm.legs key consumer hkey hmem
  · intro key hmem
    rw [hsubscribed] at hmem
    rw [hcounted]
    -- what the venue holds is counted, or is being acquired by a call
    rcases h.venueCounted key hmem with hbefore | ⟨i, d, hd, hacquires⟩
    · exact .inl fun hempty => hm.gone key hbefore hempty hmem
    · by_cases hi : i = id
      · subst hi
        rw [hget] at hd
        cases hd
        exact .inl (hacquired key hacquires)
      · exact .inr ⟨i, d, hstays hi hd, hacquires⟩
  · intro key hmem
    rw [hsubscribed] at hmem ⊢
    exact h.venueSpots key hmem
  · intro hup key hheld
    rw [haccepting] at hup
    rw [hcounted] at hheld
    rw [hsubscribed]
    -- a counted key was held before the turn, or the turn found it held
    rcases hm.still hup key hheld with ⟨hbefore, hkeeps⟩ | hvenue
    · rcases h.countedHeld hup key hbefore with hvenue | hfailed | hawaits | ⟨i, d, hd, hreleases⟩
      · exact .inl hvenue
      · refine .inr (.inl ?_)
        rw [hsame]
        exact hkeeps hfailed
      · refine .inr (.inr (.inl ?_))
        rw [Awaits, hsupervisor]
        exact hawaits
      · by_cases hi : i = id
        · subst hi
          rw [hget] at hd
          cases hd
          exact absurd (hreleased key hreleases) hheld
        · exact .inr (.inr (.inr ⟨i, d, hstays hi hd, hreleases⟩))
    · exact .inl hvenue
  · rw [haccepting, hsubscribed]
    exact h.down
  · rw [hstate, hsupervisor]
    exact h.ready
  · rw [hstate, hsupervisor]
    exact h.restoring

end World

end Subscriptions

end NautilusCtrader
