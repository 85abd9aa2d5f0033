import NautilusCtrader.Subscriptions.Interrupted

/-!
# What the sections of a call count

A section of a call counts one consumer on one key, or no longer: `Touched` says what that leaves, and
what follows here that each function under a lock does no more, however its request ends. A call that
ends settles its own consumer's intent (`intent?_endCall`).
-/

namespace NautilusCtrader

open Common

namespace Subscriptions

namespace Interrupted

/-- A release under way holds the lock of its key. -/
theorem Call.holds_of_releases (c : Call) {key : Key} {consumer : Consumer}
    (h : c.releases = some (key, consumer)) : c.holds key = true := by
  unfold Call.releases at h
  unfold Call.holds
  split at h
  · rename_i session hstage
    rw [hstage]
    by_cases hsubscribe : c.subscribe = true
    · simp [hsubscribe] at h
    · simp only [hsubscribe, Bool.false_eq_true, if_false, Option.some.injEq, Prod.mk.injEq] at h
      simp [h.1]
  · cases h
  · rename_i use session huse hstage
    rw [hstage]
    simp only [Option.some.injEq, Prod.mk.injEq] at h
    simp [h.1]
  · cases h

/-- A call that gives its leg back releases it. -/
theorem Call.releases_leg {c : Call} {use : LegUse} {session : ℕ} (hstage : c.stage = .legAsks use session)
    (huse : use ≠ .take) : c.releases = some (c.key.spotsKey, c.leg) := by
  unfold Call.releases
  rw [hstage]
  cases use with
  | take => exact absurd rfl huse
  | giveBack => rfl
  | drop => rfl

/-- A bring-up that goes on keeps its restores, and is the same bring-up. -/
theorem Session.connected_keeps (s : Session) :
    s.connected.restores = s.restores ∧ s.connected.generation = s.generation := by
  unfold Session.connected
  split
  · exact ⟨rfl, rfl⟩
  · exact ⟨rfl, rfl⟩

/-- The authentication leaves the restores. -/
theorem Session.authenticated_keeps (s : Session) :
    s.authenticated.restores = s.restores ∧ s.authenticated.generation = s.generation := by
  unfold Session.authenticated
  split
  · exact ⟨rfl, rfl⟩
  · exact ⟨rfl, rfl⟩

/-- The end of a bring-up leaves them. -/
theorem Session.restored_keeps (s : Session) (failed : Finset Key) :
    (s.restored failed).restores = s.restores ∧ (s.restored failed).generation = s.generation := by
  unfold Session.restored
  split
  · exact ⟨rfl, rfl⟩
  · exact ⟨rfl, rfl⟩

namespace World

variable {w w' : World} {key : Key} {consumer : Consumer} {id : ℕ} {c : Call}

/-! ## Intents -/

/-- An intent is set for its own consumer. -/
theorem intent?_setIntent (w : World) (key : Key) (consumer : Consumer) (pending : ℕ) (k : Key)
    (x : Consumer) : (w.setIntent key consumer pending).intent? k x =
      if k = key ∧ x = consumer then some pending else w.intent? k x := by
  simp only [intent?, setIntent, Dict.get?_set]
  by_cases hk : key = k
  · subst hk
    rw [if_pos rfl, Option.bind_some, Dict.get?_set]
    by_cases hx : consumer = x
    · rw [if_pos hx, if_pos ⟨rfl, hx.symm⟩]
    · rw [if_neg hx, if_neg fun h => hx h.2.symm]
      cases w.intents.get? key with
      | none => rfl
      | some intents => rfl
  · rw [if_neg hk, if_neg fun h => hk h.1.symm]

/-- An intent is forgotten of its own consumer. -/
theorem intent?_forgetIntent (w : World) (key : Key) (consumer : Consumer) (k : Key) (x : Consumer) :
    (w.forgetIntent key consumer).intent? k x =
      if k = key ∧ x = consumer then none else w.intent? k x := by
  simp only [intent?, forgetIntent]
  by_cases hk : k = key
  · subst hk
    have hrest (rest : Dict Consumer ℕ) :
        (((if rest.keys = [] then w.intents.erase k else w.intents.set k rest).get? k).bind
          fun intents => intents.get? x) = rest.get? x := by
      by_cases hempty : rest.keys = []
      · rw [if_pos hempty, Dict.get?_erase_self, Option.bind_none, Dict.get?,
          List.map_eq_nil_iff.mp hempty]
        rfl
      · rw [if_neg hempty, Dict.get?_set_self, Option.bind_some]
    rw [hrest, Dict.get?_erase]
    by_cases hx : x = consumer
    · rw [if_pos hx, if_pos ⟨rfl, hx⟩]
    · rw [if_neg hx, if_neg fun h => hx h.2]
      cases w.intents.get? k with
      | none => rfl
      | some intents => rfl
  · have hother : ¬ (k = key ∧ x = consumer) := fun h => hk h.1
    rw [if_neg hother]
    split
    · rw [Dict.get?_erase, if_neg hk]
    · rw [Dict.get?_set, if_neg (Ne.symm hk)]

/-- `_settle` forgets an intent that nothing is pending or counted for, and no other. -/
theorem intent?_settle (w : World) (key : Key) (consumer : Consumer) (k : Key) (x : Consumer) :
    (w.settle key consumer).intent? k x =
      if (k = key ∧ x = consumer) ∧ (w.intent? key consumer).getD 0 = 0 ∧
        w.isCounted key consumer = false then none else w.intent? k x := by
  unfold settle
  cases hintent : w.intent? key consumer with
  | none =>
    by_cases hsame : k = key ∧ x = consumer
    · obtain ⟨rfl, rfl⟩ := hsame
      rw [hintent, ite_self]
    · rw [if_neg fun hall => hsame hall.1]
  | some pending =>
    rw [Option.getD_some]
    by_cases hkeeps : pending ≠ 0 ∨ w.isCounted key consumer = true
    · rw [if_neg]
      · simp [hkeeps]
      · rintro ⟨-, hzero, hcounted⟩
        rcases hkeeps with hne | hheld
        · exact hne hzero
        · exact Bool.false_ne_true (hcounted.symm.trans hheld)
    · have hsettled : pending = 0 ∧ w.isCounted key consumer = false := by
        simpa using hkeeps
      simp [hsettled, intent?_forgetIntent]

/-- Settling touches the intents only. -/
theorem settle_same (w : World) (key : Key) (consumer : Consumer) :
    w.settle key consumer = { w with intents := (w.settle key consumer).intents } := by
  unfold settle
  split
  · rfl
  · split
    · rfl
    · rfl

/-- So does a call that is no longer pending. -/
theorem unpend_same (w : World) (c : Call) :
    w.unpend c = { w with intents := (w.unpend c).intents } := by
  unfold unpend
  split
  · rfl
  · split
    · rfl
    · rfl

/-- What a call that ends leaves: its own consumer's intent settled, and the rest as it is. -/
theorem endCall_same (w : World) (id : ℕ) (c : Call) :
    w.endCall id c =
      { w with calls := w.calls.erase id, intents := (w.endCall id c).intents } := by
  unfold endCall
  dsimp only
  rw [settle_same, unpend_same]

/-- The intent of a consumer whose call ends. -/
theorem intent?_endCall (w : World) (id : ℕ) (c : Call) {k : Key} {x : Consumer} :
    (w.endCall id c).intent? k x =
      if (k = c.key ∧ x = c.consumer) ∧ ((w.unpend c).intent? c.key c.consumer).getD 0 = 0 ∧
        w.isCounted c.key c.consumer = false then none else (w.unpend c).intent? k x := by
  have hcounted : (w.unpend c).isCounted c.key c.consumer = w.isCounted c.key c.consumer := by
    rw [unpend_same]
    rfl
  rw [← hcounted]
  exact intent?_settle (w.unpend c) c.key c.consumer k x

/-- It counts its own consumer's intent down. -/
theorem intent?_unpend (w : World) (c : Call) (k : Key) (x : Consumer) :
    (w.unpend c).intent? k x =
      if (k = c.key ∧ x = c.consumer) ∧ c.subscribe = true then
        (w.intent? c.key c.consumer).map (· - 1)
      else w.intent? k x := by
  unfold unpend
  cases hintent : w.intent? c.key c.consumer with
  | none =>
    by_cases hsame : k = c.key ∧ x = c.consumer
    · simp [hsame, hintent]
    · simp [hsame]
  | some pending =>
    by_cases hsubscribe : c.subscribe = true
    · simp [hsubscribe, intent?_setIntent]
    · simp [hsubscribe]

/-! ## What is counted -/

/-- The registry's dictionary holds no empty set, and the session has a restore for each key it holds. -/
structure Registered (w : World) : Prop where
  sets : ∀ key consumers, w.consumers.get? key = some consumers → consumers ≠ ∅
  restores : ∀ s, w.session = some s → ∀ key, key ∈ s.restores ↔ w.counted key ≠ ∅

/-- A consumer is counted on a key, or as a leg on its spots. -/
theorem isCounted_iff : w.isCounted key consumer = true ↔
    consumer ∈ w.counted key ∨ key.leg consumer ∈ w.counted key.spotsKey := by
  cases key with
  | spots symbolId => simp [isCounted, Key.leg, Key.spotsKey]
  | trendbar symbolId period => simp [isCounted, Key.leg, Key.spotsKey]

/-- Whether a consumer is counted on a key, the spots legs of trendbar consumers apart. -/
def Counts (w : World) (key : Key) (consumer : Consumer) : Prop :=
  w.isCounted key consumer = true ∧ (key.IsTrendbar ∨ ¬ NamedAsLeg consumer)

/-- `w'` is `w` with a consumer counted on a key, or no longer. -/
structure Touched (w w' : World) (key : Key) (consumer : Consumer) : Prop where
  calls : w'.calls = w.calls
  intents : w'.intents = w.intents
  others : ∀ k, k ≠ key → w'.counted k = w.counted k
  members : ∀ x, x ≠ consumer → (x ∈ w'.counted key ↔ x ∈ w.counted key)
  registered : w'.Registered

/-- Nothing is touched. -/
theorem Touched.refl (h : w.Registered) (key : Key) (consumer : Consumer) :
    w.Touched w key consumer :=
  ⟨rfl, rfl, fun _ _ => rfl, fun _ _ => Iff.rfl, h⟩

/-- A key that is not registered has no consumer. -/
theorem get?_eq_none (h : w.Registered) : w.consumers.get? key = none ↔ w.counted key = ∅ := by
  rw [World.counted]
  cases hget : w.consumers.get? key with
  | none => simp
  | some consumers => simp [h.sets key consumers hget]

/-- A key that is registered has one. -/
theorem counted_of_contains (h : w.Registered) : w.consumers.contains key = true ↔ w.counted key ≠ ∅ := by
  rw [Ne, ← get?_eq_none h, Dict.contains, Option.isSome_iff_ne_none]

/-- What is counted once a key's set is another. -/
theorem counted_set {consumers : Finset Consumer}
    (hsame : w'.consumers = w.consumers.set key consumers) (k : Key) :
    w'.counted k = if k = key then consumers else w.counted k := by
  rw [World.counted, World.counted, hsame, Dict.get?_set]
  by_cases hk : key = k
  · rw [if_pos hk, if_pos hk.symm, Option.getD_some]
  · rw [if_neg hk, if_neg (Ne.symm hk)]

/-- A nonempty set is put in place, and the key's restore with it. -/
theorem touched_set {consumers : Finset Consumer} (h : w.Registered)
    (hconsumers : w'.consumers = w.consumers.set key consumers) (hne : consumers ≠ ∅)
    (hcalls : w'.calls = w.calls) (hintents : w'.intents = w.intents)
    (hmembers : ∀ x, x ≠ consumer → (x ∈ consumers ↔ x ∈ w.counted key))
    (hrestores : ∀ s', w'.session = some s' → ∃ s, w.session = some s ∧
      ∀ k, k ∈ s'.restores ↔ k ∈ s.restores ∨ k = key) : w.Touched w' key consumer := by
  have hcounted := counted_set hconsumers
  refine ⟨hcalls, hintents, ?_, ?_, ?_, ?_⟩
  · intro k hk
    rw [hcounted, if_neg hk]
  · intro x hx
    rw [hcounted, if_pos rfl]
    exact hmembers x hx
  · intro k found hget
    rw [hconsumers] at hget
    exact Dict.forall_set h.sets hne k found hget
  · intro s' hs' k
    obtain ⟨s, hs, hmem⟩ := hrestores s' hs'
    rw [hmem, h.restores s hs, hcounted]
    by_cases hk : k = key
    · simp [hk, hne]
    · simp [hk]

/-- A consumer is recorded. -/
theorem touched_record (h : w.Registered) (key : Key) (consumer : Consumer) :
    w.Touched (w.record key consumer) key consumer := by
  refine touched_set h rfl (Finset.insert_ne_empty _ _) rfl rfl ?_ ?_
  · intro x hx
    rw [Finset.mem_insert, or_iff_right hx]
  · intro s' hs'
    obtain ⟨s, hs, rfl⟩ := Option.map_eq_some_iff.mp hs'
    refine ⟨s, hs, fun k => ?_⟩
    show k ∈ (if key ∈ s.restores then s.restores else s.restores ++ [key]) ↔ _
    by_cases hin : key ∈ s.restores
    · rw [if_pos hin]
      constructor
      · exact .inl
      · rintro (hk | rfl)
        · exact hk
        · exact hin
    · rw [if_neg hin, List.mem_append, List.mem_singleton]

/-- A step that counts nobody and leaves the session's restores. -/
theorem Touched.then_quiet {w'' : World} (h : w.Touched w' key consumer)
    (hcalls : w''.calls = w'.calls) (hintents : w''.intents = w'.intents)
    (hconsumers : w''.consumers = w'.consumers)
    (hrestores : w''.session.map Session.restores = w'.session.map Session.restores) :
    w.Touched w'' key consumer := by
  have hcounted : w''.counted = w'.counted := by
    funext k
    rw [World.counted, World.counted, hconsumers]
  refine ⟨hcalls.trans h.calls, hintents.trans h.intents, ?_, ?_, ?_, ?_⟩
  · rw [hcounted]
    exact h.others
  · rw [hcounted]
    exact h.members
  · rw [hconsumers]
    exact h.registered.sets
  · intro s hs k
    rw [hs, Option.map_some] at hrestores
    obtain ⟨s', hs', hsame⟩ := Option.map_eq_some_iff.mp hrestores.symm
    rw [← hsame, hcounted]
    exact h.registered.restores s' hs' k

/-- A restore that is marked failed stays registered. -/
theorem restores_markRestoreFailed (s : Session) (key : Key) :
    (s.markRestoreFailed key).restores = s.restores := by
  unfold Session.markRestoreFailed
  split
  · rfl
  · rfl

/-- A consumer is recorded whose subscribe got no answer. -/
theorem touched_recordUnknown (h : w.Registered) (session : ℕ) (key : Key) (consumer : Consumer) :
    w.Touched (w.recordUnknown session key consumer) key consumer := by
  have hrecord := touched_record h key consumer
  unfold recordUnknown
  dsimp only
  by_cases haccepts : (w.record key consumer).accepts session
  · rw [if_pos haccepts]
    refine hrecord.then_quiet rfl rfl rfl ?_
    rw [Option.map_map]
    apply congrArg fun f => Option.map f (w.record key consumer).session
    funext s
    exact restores_markRestoreFailed s key
  · rwa [if_neg haccepts]

/-- `_acquire` counts its consumer, or sends a request first. -/
theorem touched_acquire (h : w.Registered) (key : Key) (consumer : Consumer) :
    w.Touched (w.acquire key consumer).1 key consumer := by
  unfold acquire
  by_cases hjoins : w.consumers.contains key ∧ key ∉ w.maybeUnsubscribed
  · rw [if_pos hjoins]
    refine touched_set h rfl (Finset.insert_ne_empty _ _) rfl rfl ?_ ?_
    · intro x hx
      rw [Finset.mem_insert, or_iff_right hx]
    · intro s hs
      refine ⟨s, hs, fun k => ⟨.inl, ?_⟩⟩
      rintro (hk | rfl)
      · exact hk
      · exact (h.restores s hs k).mpr ((counted_of_contains h).mp hjoins.1)
  · rw [if_neg hjoins]
    cases w.acceptingSession with
    | none => exact touched_record h key consumer
    | some session => exact .refl h key consumer

/-- A subscribe is answered. -/
theorem touched_acquired (h : w.Registered) (session : ℕ) (key : Key) (consumer : Consumer)
    (outcome : Outcome) : w.Touched (w.acquired session key consumer outcome).1 key consumer := by
  have hunknown := touched_recordUnknown h session key consumer
  cases outcome with
  | ok =>
    apply (touched_record h key consumer).then_quiet
    · rfl
    · rfl
    · rfl
    · rfl
  | refused => exact .refl h key consumer
  | lost => exact hunknown
  | failed =>
    show w.Touched (if w.accepts session then (w, some Raised.failed)
      else (w.recordUnknown session key consumer, none)).1 key consumer
    by_cases haccepts : w.accepts session
    · rw [if_pos haccepts]
      exact .refl h key consumer
    · rwa [if_neg haccepts]
  | cancelled => exact hunknown

/-- Dropping a price touches no books. -/
theorem dropSpot_same (w : World) (key : Key) (happened : ℤ → Happened) :
    (w.dropSpot key happened).calls = w.calls ∧ (w.dropSpot key happened).intents = w.intents ∧
      (w.dropSpot key happened).consumers = w.consumers ∧
      (w.dropSpot key happened).session = w.session := by
  unfold dropSpot
  split
  · exact ⟨rfl, rfl, rfl, rfl⟩
  · exact ⟨rfl, rfl, rfl, rfl⟩

/-- What is counted after a key is dropped. -/
theorem counted_drop (w : World) (key k : Key) :
    (w.drop key).counted k = if k = key then ∅ else w.counted k := by
  unfold drop
  dsimp only
  rw [World.counted, World.counted, (dropSpot_same _ key _).2.2.1, Dict.get?_erase]
  by_cases hk : k = key
  · rw [if_pos hk, if_pos hk]
    rfl
  · rw [if_neg hk, if_neg hk]

/-- The last consumer's reference goes, and the key's restore with it. -/
theorem touched_drop (h : w.Registered) (hlast : ∀ x, x ≠ consumer → x ∉ w.counted key) :
    w.Touched (w.drop key) key consumer := by
  have hcounted := counted_drop w key
  obtain ⟨hcalls, hintents, hconsumers, hsession⟩ := dropSpot_same
    { w with
      consumers := w.consumers.erase key
      maybeUnsubscribed := w.maybeUnsubscribed.erase key
      session := w.session.map (·.removeRestore key) } key .released
  refine ⟨hcalls, hintents, ?_, ?_, ?_, ?_⟩
  · intro k hk
    rw [hcounted, if_neg hk]
  · intro x hx
    rw [hcounted, if_pos rfl]
    simp [hlast x hx]
  · intro k found hget
    rw [show (w.drop key).consumers = w.consumers.erase key from hconsumers] at hget
    exact Dict.forall_erase h.sets key k found hget
  · intro s' hs' k
    obtain ⟨s, hs, rfl⟩ := Option.map_eq_some_iff.mp (hsession.symm.trans hs')
    show k ∈ s.restores.filter (· ≠ key) ↔ _
    rw [hcounted, List.mem_filter, h.restores s hs]
    by_cases hk : k = key
    · simp [hk]
    · simp [hk]

/-- A set of one consumer at most, which holds this one. -/
theorem eq_singleton_of_card {consumers : Finset Consumer} (hmem : consumer ∈ consumers)
    (hcard : ¬ 1 < consumers.card) : consumers = {consumer} := by
  apply Finset.eq_singleton_iff_unique_mem.mpr
  refine ⟨hmem, fun other hother => ?_⟩
  exact Finset.card_le_one.mp (by omega) other hother consumer hmem

/-- `_release` drops its consumer, or sends a request first for the last one. -/
theorem touched_release (h : w.Registered) (key : Key) (consumer : Consumer) :
    w.Touched (w.release key consumer).1 key consumer ∧
      (∀ k, (w.release key consumer).1.counted k ⊆ w.counted k) ∧
      ∀ session, (w.release key consumer).2 = some session →
        (w.release key consumer).1 = w ∧ w.counted key = {consumer} := by
  unfold release
  by_cases hmem : consumer ∈ w.counted key
  · rw [if_neg (not_not.mpr hmem)]
    -- others are left, or it is the last consumer of the key
    by_cases hmore : 1 < (w.counted key).card
    · rw [if_pos hmore]
      have hrest : (w.counted key).erase consumer ≠ ∅ := by
        intro hempty
        have hcard := Finset.card_erase_add_one hmem
        rw [hempty, Finset.card_empty] at hcard
        omega
      have hcounted (k : Key) : ({ w with
          consumers := w.consumers.set key ((w.counted key).erase consumer) } : World).counted k =
            if k = key then (w.counted key).erase consumer else w.counted k := counted_set rfl k
      refine ⟨?_, ?_, ?_⟩
      · refine touched_set h rfl hrest rfl rfl ?_ ?_
        · intro x hx
          rw [Finset.mem_erase, and_iff_right hx]
        · intro s hs
          refine ⟨s, hs, fun k => ⟨.inl, ?_⟩⟩
          rintro (hk | rfl)
          · exact hk
          · exact (h.restores s hs k).mpr (Finset.ne_empty_of_mem hmem)
      · intro k
        rw [hcounted]
        by_cases hk : k = key
        · rw [if_pos hk, hk]
          exact Finset.erase_subset _ _
        · rw [if_neg hk]
      · intro session hsent
        cases hsent
    · rw [if_neg hmore]
      have hone := eq_singleton_of_card hmem hmore
      cases w.acceptingSession with
      | none =>
        refine ⟨?_, ?_, ?_⟩
        · apply touched_drop h
          intro x hx
          rwa [hone, Finset.mem_singleton]
        · intro k
          rw [counted_drop]
          split
          · exact Finset.empty_subset _
          · exact Finset.Subset.refl _
        · intro session hsent
          cases hsent
      | some session =>
        exact ⟨.refl h key consumer, fun _ => Finset.Subset.refl _, fun _ _ => ⟨rfl, hone⟩⟩
  · rw [if_pos hmem]
    refine ⟨.refl h key consumer, fun _ => Finset.Subset.refl _, ?_⟩
    intro session hsent
    cases hsent

/-- The unsubscribe of a key's only consumer is answered. -/
theorem touched_released (h : w.Registered) (hone : w.counted key = {consumer}) (outcome : Outcome) :
    w.Touched (w.released key outcome) key consumer ∧
      ∀ k, (w.released key outcome).counted k ⊆ w.counted k := by
  have hdropped : w.Touched (w.drop key) key consumer ∧ ∀ k, (w.drop key).counted k ⊆ w.counted k := by
    constructor
    · apply touched_drop h
      intro x hx
      rwa [hone, Finset.mem_singleton]
    · intro k
      rw [counted_drop]
      split
      · exact Finset.empty_subset _
      · exact Finset.Subset.refl _
  cases outcome with
  | cancelled =>
    obtain ⟨hcalls, hintents, hconsumers, hsession⟩ := dropSpot_same
      { w with maybeUnsubscribed := insert key w.maybeUnsubscribed } key .releaseCancelled
    constructor
    · exact (Touched.refl h key consumer).then_quiet hcalls hintents hconsumers
        (congrArg (Option.map Session.restores) hsession)
    · intro k
      rw [World.counted, World.counted]
      exact (congrArg (fun d => (Dict.get? d k).getD ∅) hconsumers).subset
  | ok => exact hdropped
  | refused => exact hdropped
  | lost => exact hdropped
  | failed => exact hdropped

/-! ## Spots -/

/-- A turn of a restore changes only the restores, and which keys may be unsubscribed. -/
theorem beginRestore_same (w : World) (id : ℕ) (key : Key) : ∃ restores maybeUnsubscribed,
    w.beginRestore id key = { w with restores, maybeUnsubscribed } := by
  unfold beginRestore
  split
  · exact ⟨_, _, rfl⟩
  · split
    · exact ⟨_, _, rfl⟩
    · exact ⟨_, _, rfl⟩

/-- A restore that takes its lock touches no books. -/
theorem enterRestore_same (w : World) (id : ℕ) : ∃ restores maybeUnsubscribed,
    w.enterRestore id = { w with restores, maybeUnsubscribed } := by
  unfold enterRestore
  split
  · exact ⟨_, _, rfl⟩
  · split
    · exact ⟨_, _, rfl⟩
    · split
      · exact ⟨_, _, rfl⟩
      · exact ⟨_, _, rfl⟩

/-- Nor does one that is answered. -/
theorem answerRestore_same (w : World) (id : ℕ) (ok : Bool) : ∃ restores maybeUnsubscribed,
    w.answerRestore id ok = { w with restores, maybeUnsubscribed } := by
  unfold answerRestore
  split
  · exact ⟨_, _, rfl⟩
  · split
    · exact ⟨_, _, rfl⟩
    · split
      · exact ⟨_, _, rfl⟩
      · split
        · exact ⟨_, _, rfl⟩
        · exact ⟨_, _, rfl⟩

/-- A spot event changes the spots kept alone. -/
theorem keep_same (w : World) (event : SpotEvent) (now : ℚ) :
    w.keep event now = { w with lastSpots := (w.keep event now).lastSpots } := by
  unfold keep
  split
  · rfl
  · split
    · rfl
    · rfl

end World

end Interrupted

end Subscriptions

end NautilusCtrader
