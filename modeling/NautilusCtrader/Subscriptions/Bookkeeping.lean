import NautilusCtrader.Subscriptions.Sections

/-!
# The bookkeeping keeps in step

Counts, intents and restores change at different awaits of one call, and a call may end at any of them.
`Kept` says how they agree meanwhile: each consumer's intent is pending for its subscribe calls, and a
consumer that is counted has an intent, one with an intent is counted or has a call that will settle it.
A turn of a call counts only that call's consumer, its spots leg included, under locks it holds
(`Turned`). What it comes to once no call runs is `bookkeeping_in_step`.
-/

namespace NautilusCtrader

open Common

namespace Subscriptions

namespace Interrupted

namespace World

variable {w w' : World} {key : Key} {consumer : Consumer} {id : ℕ} {c : Call}

/-! ## What a turn of a call changes -/

/-- No other call holds a key's lock. -/
def Alone (w : World) (id : ℕ) (key : Key) : Prop :=
  ∀ i d, i ≠ id → w.calls.get? i = some d → d.holds key = false

/-- `w'` is `w` after some of a call's counting, under locks that no other call holds. -/
structure Turned (w : World) (id : ℕ) (c : Call) (w' : World) : Prop where
  calls : w'.calls = w.calls
  intents : w'.intents = w.intents
  registered : w'.Registered
  counts : ∀ key consumer, ¬ (key = c.key ∧ consumer = c.consumer) →
    (w'.Counts key consumer ↔ w.Counts key consumer)
  fewer : c.subscribe = false → ∀ key, w'.counted key ⊆ w.counted key
  others : ∀ i d key, i ≠ id → w.calls.get? i = some d → d.holds key = true →
    w'.counted key = w.counted key

/-- A call that does nothing has turned nothing. -/
theorem Turned.refl (h : w.Registered) (id : ℕ) (c : Call) : w.Turned id c w :=
  ⟨rfl, rfl, h, fun _ _ _ => Iff.rfl, fun _ _ => Finset.Subset.refl _, fun _ _ _ _ _ _ => rfl⟩

/-- Two turns of a call are one. -/
theorem Turned.trans {w'' : World} (h : w.Turned id c w') (h' : w'.Turned id c w'') :
    w.Turned id c w'' := by
  refine ⟨h'.calls.trans h.calls, h'.intents.trans h.intents, h'.registered, ?_, ?_, ?_⟩
  · intro key consumer hother
    exact (h'.counts key consumer hother).trans (h.counts key consumer hother)
  · intro hrelease key
    exact (h'.fewer hrelease key).trans (h.fewer hrelease key)
  · intro i d key hi hget hholds
    rw [h'.others i d key hi (h.calls ▸ hget) hholds]
    exact h.others i d key hi hget hholds

/-- A key of spots is its own spots leg. -/
theorem plain_key {key : Key} (h : ¬ key.IsTrendbar) : key.spotsKey = key ∧ ∀ x, key.leg x = x := by
  cases key with
  | spots symbolId => exact ⟨rfl, fun _ => rfl⟩
  | trendbar symbolId period => exact absurd (Key.isTrendbar_trendbar symbolId period) h

/-- A call's own consumer, or its spots leg, is counted by that consumer's key alone. -/
theorem Touched.turned (h : w.Touched w' key consumer)
    (htarget : key = c.key ∧ consumer = c.consumer ∨ key = c.key.spotsKey ∧ consumer = c.leg)
    (hnamed : ¬ c.key.IsTrendbar → ¬ NamedAsLeg c.consumer) (halone : w.Alone id key)
    (hfewer : c.subscribe = false → ∀ k, w'.counted k ⊆ w.counted k) : w.Turned id c w' := by
  have hmem {k : Key} {x : Consumer} (hne : ¬ (k = key ∧ x = consumer)) :
      x ∈ w'.counted k ↔ x ∈ w.counted k := by
    by_cases hk : k = key
    · rw [hk]
      exact h.members x fun hx => hne ⟨hk, hx⟩
    · rw [h.others k hk]
  have hapart {k : Key} {x : Consumer} (hplain : k.IsTrendbar ∨ ¬ NamedAsLeg x)
      (hother : ¬ (k = c.key ∧ x = c.consumer)) :
      ¬ (k = key ∧ x = consumer) ∧ ¬ (k.spotsKey = key ∧ k.leg x = consumer) := by
    -- a trendbar call may touch its leg; a leg's name belongs to one consumer alone
    by_cases hbars : c.key.IsTrendbar
    · rcases htarget with ⟨rfl, rfl⟩ | ⟨rfl, rfl⟩
      · refine ⟨hother, ?_⟩
        rintro ⟨hkey, -⟩
        apply hbars
        rw [← hkey, Key.spotsKey_spotsKey]
      · constructor
        · rintro ⟨rfl, rfl⟩
          rcases hplain with hspots | hnot
          · exact hspots (Key.spotsKey_spotsKey _)
          · exact hnot (Key.namedAsLeg_leg hbars c.consumer)
        · rintro ⟨hkey, hleg⟩
          by_cases hk : k.IsTrendbar
          · exact hother (Key.leg_injective hk hbars hkey hleg)
          · rw [(plain_key hk).2] at hleg
            rcases hplain with hspots | hnot
            · exact hk hspots
            · rw [hleg] at hnot
              exact hnot (Key.namedAsLeg_leg hbars c.consumer)
    · have hown : key = c.key ∧ consumer = c.consumer := by
        rcases htarget with hown | ⟨hkey, hleg⟩
        · exact hown
        · rw [(plain_key hbars).1] at hkey
          rw [Call.leg, (plain_key hbars).2] at hleg
          exact ⟨hkey, hleg⟩
      obtain ⟨rfl, rfl⟩ := hown
      refine ⟨hother, ?_⟩
      rintro ⟨hkey, hleg⟩
      by_cases hk : k.IsTrendbar
      · exact hnamed hbars (hleg ▸ Key.namedAsLeg_leg hk x)
      · rw [(plain_key hk).1] at hkey
        rw [(plain_key hk).2] at hleg
        exact hother ⟨hkey, hleg⟩
  refine ⟨h.calls, h.intents, h.registered, ?_, hfewer, ?_⟩
  · intro k x hother
    unfold Counts
    apply and_congr_left
    intro hplain
    obtain ⟨hown, hleg⟩ := hapart hplain hother
    rw [isCounted_iff, isCounted_iff, hmem hown, hmem hleg]
  · intro i d k hi hget hholds
    apply h.others k
    rintro rfl
    exact Bool.false_ne_true ((halone i d hi hget).symm.trans hholds)

/-! ## What the bookkeeping keeps -/

/-- The subscribe calls of a consumer that run. -/
def runs (w : World) (key : Key) (consumer : Consumer) : Finset ℕ :=
  w.calls.keys.toFinset.filter fun id =>
    (w.calls.get? id).any fun c => c.subscribe && c.key = key && c.consumer = consumer

/-- The calls that run for a consumer are its subscribes under way. -/
theorem mem_runs : id ∈ w.runs key consumer ↔
    ∃ c, w.calls.get? id = some c ∧ c.subscribe = true ∧ c.key = key ∧ c.consumer = consumer := by
  rw [runs, Finset.mem_filter, List.mem_toFinset, Option.any_eq_true]
  constructor
  · rintro ⟨-, c, hget, hc⟩
    simp only [Bool.and_eq_true, decide_eq_true_eq, and_assoc] at hc
    exact ⟨c, hget, hc⟩
  · rintro ⟨c, hget, hc⟩
    refine ⟨List.mem_map.mpr ⟨(id, c), Dict.get?_eq_some.mp hget, rfl⟩, c, hget, ?_⟩
    simpa [and_assoc] using hc

/-- How counts, intents and calls agree between two awaits. -/
structure Kept (w : World) : Prop where
  registered : w.Registered
  /-- No two calls hold one lock. -/
  locks : ∀ id id' c c' key, w.calls.get? id = some c → w.calls.get? id' = some c' →
    c.holds key = true → c'.holds key = true → id = id'
  /-- A release under way is of the last consumer. -/
  releasing : ∀ id c key consumer, w.calls.get? id = some c → c.releases = some (key, consumer) →
    w.counted key = {consumer}
  named : ∀ id c, w.calls.get? id = some c → ¬ c.key.IsTrendbar → ¬ NamedAsLeg c.consumer
  taken : ∀ id c, w.calls.get? id = some c →
    (c.stage = .legWaits .take ∨ ∃ session, c.stage = .legAsks .take session) → c.subscribe = true
  pending : ∀ key consumer, (w.intent? key consumer).getD 0 = (w.runs key consumer).card
  held : ∀ key consumer, w.Counts key consumer → w.intent? key consumer ≠ none
  settled : ∀ key consumer, w.intent? key consumer ≠ none → w.Counts key consumer ∨
    ∃ id c, w.calls.get? id = some c ∧ c.key = key ∧ c.consumer = consumer

/-- A call that holds a key's lock is alone on it. -/
theorem Kept.alone (h : w.Kept) (hget : w.calls.get? id = some c) (hholds : c.holds key = true) :
    w.Alone id key := by
  intro i d hi hd
  by_contra hother
  rw [Bool.not_eq_false] at hother
  exact hi (h.locks i id d c key hd hget hother hholds)

/-- Nobody is on a key that is free. -/
theorem alone_of_free (h : w.free key = true) (id : ℕ) : w.Alone id key := by
  intro i d _ hd
  rw [free, Bool.and_eq_true, List.all_eq_true] at h
  have hfree := h.1 d (Dict.mem_values.mpr ⟨i, hd⟩)
  rwa [Bool.not_eq_true'] at hfree

/-- A subscribe call's consumer has an intent. -/
theorem Kept.intent_of_runs (h : w.Kept) (hget : w.calls.get? id = some c)
    (hsubscribe : c.subscribe = true) : w.intent? c.key c.consumer ≠ none := by
  intro hnone
  have hpending := h.pending c.key c.consumer
  rw [hnone, Option.getD_none] at hpending
  have hempty := Finset.card_eq_zero.mp hpending.symm
  have hin : id ∈ w.runs c.key c.consumer := mem_runs.mpr ⟨c, hget, hsubscribe, rfl, rfl⟩
  rw [hempty] at hin
  exact absurd hin (Finset.notMem_empty id)

/-- After some of a call's counting, its own consumer has an intent if it is counted. -/
theorem Kept.held_turned (h : w.Kept) (hget : w.calls.get? id = some c) (hturn : w.Turned id c w') :
    ∀ key consumer, w'.Counts key consumer → w.intent? key consumer ≠ none := by
  intro key consumer hcounts
  by_cases hown : key = c.key ∧ consumer = c.consumer
  · obtain ⟨rfl, rfl⟩ := hown
    cases hsubscribe : c.subscribe with
    | true => exact h.intent_of_runs hget hsubscribe
    | false =>
      apply h.held
      refine ⟨?_, hcounts.2⟩
      have hfewer := hturn.fewer hsubscribe
      rw [isCounted_iff]
      rcases isCounted_iff.mp hcounts.1 with hin | hin
      · exact .inl (hfewer _ hin)
      · exact .inr (hfewer _ hin)
  · exact h.held key consumer ((hturn.counts key consumer hown).mp hcounts)

/-- A call goes on to its next await. -/
theorem Kept.goesOn (h : w.Kept) (hget : w.calls.get? id = some c) (hturn : w.Turned id c w')
    {stage : Stage} (hlocks : ∀ key, ({ c with stage } : Call).holds key = true → w.Alone id key)
    (hreleases : ∀ key consumer, ({ c with stage } : Call).releases = some (key, consumer) →
      w'.counted key = {consumer})
    (htaken : (stage = .legWaits .take ∨ ∃ session, stage = .legAsks .take session) →
      c.subscribe = true) : (w'.setCall id { c with stage }).Kept := by
  -- a call after the turn is the one that goes on, or one from before
  have hcalls {i : ℕ} {d : Call} (hd : (w'.calls.set id { c with stage }).get? i = some d) :
      i = id ∧ d = { c with stage } ∨ i ≠ id ∧ w.calls.get? i = some d := by
    rw [hturn.calls] at hd
    rcases Dict.get?_set_eq_some.mp hd with ⟨hi, hgoes⟩ | ⟨hi, hold⟩
    · exact .inl ⟨hi.symm, hgoes.symm⟩
    · exact .inr ⟨Ne.symm hi, hold⟩
  have hnow : (w'.calls.set id { c with stage }).get? id = some { c with stage } :=
    Dict.get?_set_self _ _ _
  refine ⟨⟨hturn.registered.sets, hturn.registered.restores⟩, ?_, ?_, ?_, ?_, ?_, ?_, ?_⟩
  · intro i j d e key hd he hheld hheld'
    rcases hcalls hd with ⟨rfl, rfl⟩ | ⟨hi, hold⟩
    · rcases hcalls he with ⟨rfl, rfl⟩ | ⟨hj, hold'⟩
      · rfl
      · exact absurd ((hlocks key hheld j e hj hold').symm.trans hheld') Bool.false_ne_true
    · rcases hcalls he with ⟨rfl, rfl⟩ | ⟨hj, hold'⟩
      · exact absurd ((hlocks key hheld' i d hi hold).symm.trans hheld) Bool.false_ne_true
      · exact h.locks i j d e key hold hold' hheld hheld'
  · intro i d key consumer hd hrelease
    rcases hcalls hd with ⟨rfl, rfl⟩ | ⟨hi, hd⟩
    · exact hreleases key consumer hrelease
    · show w'.counted key = _
      rw [hturn.others i d key hi hd (d.holds_of_releases hrelease)]
      exact h.releasing i d key consumer hd hrelease
  · intro i d hd
    rcases hcalls hd with ⟨rfl, rfl⟩ | ⟨hi, hd⟩
    · exact h.named i c hget
    · exact h.named i d hd
  · intro i d hd
    rcases hcalls hd with ⟨rfl, rfl⟩ | ⟨hi, hd⟩
    · exact htaken
    · exact h.taken i d hd
  · intro key consumer
    have hruns : (w'.setCall id { c with stage }).runs key consumer = w.runs key consumer := by
      ext i
      rw [mem_runs, mem_runs]
      constructor
      · rintro ⟨d, hd, hof⟩
        rcases hcalls hd with ⟨rfl, rfl⟩ | ⟨hi, hd⟩
        · exact ⟨c, hget, hof⟩
        · exact ⟨d, hd, hof⟩
      · rintro ⟨d, hd, hof⟩
        by_cases hi : i = id
        · subst hi
          obtain rfl : c = d := Option.some.inj (hget.symm.trans hd)
          exact ⟨_, hnow, hof⟩
        · refine ⟨d, ?_, hof⟩
          show (w'.calls.set id { c with stage }).get? i = some d
          rw [hturn.calls, Dict.get?_set, if_neg (Ne.symm hi)]
          exact hd
    rw [hruns, ← h.pending]
    show ((w'.intents.get? key).bind _).getD 0 = _
    rw [hturn.intents]
    rfl
  · intro key consumer hcounts
    show (w'.intents.get? key).bind _ ≠ none
    rw [hturn.intents]
    exact h.held_turned hget hturn key consumer hcounts
  · intro key consumer hintent
    have hintent' : w.intent? key consumer ≠ none := by
      rw [intent?, ← hturn.intents]
      exact hintent
    -- the call still runs, so its own intent is accounted for
    by_cases hown : key = c.key ∧ consumer = c.consumer
    · exact .inr ⟨id, _, hnow, hown.1.symm, hown.2.symm⟩
    · rcases h.settled key consumer hintent' with hcounts | ⟨i, d, hd, hkey, hconsumer⟩
      · exact .inl ((hturn.counts key consumer hown).mpr hcounts)
      · have hi : i ≠ id := by
          rintro rfl
          obtain rfl : c = d := Option.some.inj (hget.symm.trans hd)
          exact hown ⟨hkey.symm, hconsumer.symm⟩
        refine .inr ⟨i, d, ?_, hkey, hconsumer⟩
        show (w'.calls.set id { c with stage }).get? i = some d
        rw [hturn.calls, Dict.get?_set, if_neg (Ne.symm hi)]
        exact hd

/-- A call ends, and settles its consumer's intent. -/
theorem Kept.ends (h : w.Kept) (hget : w.calls.get? id = some c) (hturn : w.Turned id c w') :
    (w'.endCall id c).Kept := by
  have hcalls {i : ℕ} {d : Call} (hd : (w'.calls.erase id).get? i = some d) :
      i ≠ id ∧ w.calls.get? i = some d := by
    rw [hturn.calls] at hd
    exact Dict.get?_erase_eq_some.mp hd
  have hothers {i : ℕ} {d : Call} (hi : i ≠ id) (hd : w.calls.get? i = some d) :
      (w'.calls.erase id).get? i = some d := by
    rw [hturn.calls, Dict.get?_erase, if_neg hi]
    exact hd
  have hintent (key : Key) (consumer : Consumer) : w'.intent? key consumer = w.intent? key consumer := by
    rw [intent?, intent?, hturn.intents]
  have hruns (key : Key) (consumer : Consumer) : (w'.endCall id c).runs key consumer =
      (w.runs key consumer).erase id := by
    ext i
    rw [Finset.mem_erase, mem_runs, mem_runs, endCall_same]
    constructor
    · rintro ⟨d, hd, hof⟩
      obtain ⟨hi, hd⟩ := hcalls hd
      exact ⟨hi, d, hd, hof⟩
    · rintro ⟨hi, d, hd, hof⟩
      exact ⟨d, hothers hi hd, hof⟩
  have hcounts (key : Key) (consumer : Consumer) :
      (w'.endCall id c).Counts key consumer ↔ w'.Counts key consumer := by
    rw [endCall_same]
    exact Iff.rfl
  -- What is pending for a consumer as the call leaves, before its intent is settled.
  have hpending (key : Key) (consumer : Consumer) :
      ((w'.unpend c).intent? key consumer).getD 0 = ((w.runs key consumer).erase id).card := by
    rw [intent?_unpend, hintent]
    by_cases hmine : (key = c.key ∧ consumer = c.consumer) ∧ c.subscribe = true
    · obtain ⟨⟨rfl, rfl⟩, hsubscribe⟩ := hmine
      have hin : id ∈ w.runs c.key c.consumer := mem_runs.mpr ⟨c, hget, hsubscribe, rfl, rfl⟩
      rw [if_pos ⟨⟨rfl, rfl⟩, hsubscribe⟩, Finset.card_erase_of_mem hin, ← h.pending]
      cases w.intent? c.key c.consumer with
      | none => rfl
      | some pending => rfl
    · have hout : id ∉ w.runs key consumer := by
        intro hin
        obtain ⟨d, hd, hsubscribe, hkey, hconsumer⟩ := mem_runs.mp hin
        obtain rfl : c = d := Option.some.inj (hget.symm.trans hd)
        exact hmine ⟨⟨hkey.symm, hconsumer.symm⟩, hsubscribe⟩
      rw [if_neg hmine, Finset.erase_eq_of_notMem hout, hintent, h.pending]
  have hunpended {key : Key} {consumer : Consumer} :
      (w'.unpend c).intent? key consumer ≠ none ↔ w.intent? key consumer ≠ none := by
    rw [intent?_unpend, hintent, hintent]
    by_cases hmine : (key = c.key ∧ consumer = c.consumer) ∧ c.subscribe = true
    · rw [if_pos hmine, hmine.1.1, hmine.1.2, Ne, Option.map_eq_none_iff]
    · rw [if_neg hmine]
  refine ⟨?_, ?_, ?_, ?_, ?_, ?_, ?_, ?_⟩
  · rw [endCall_same]
    exact ⟨hturn.registered.sets, hturn.registered.restores⟩
  · rw [endCall_same]
    intro i j d e key hd he hheld hheld'
    exact h.locks i j d e key (hcalls hd).2 (hcalls he).2 hheld hheld'
  · rw [endCall_same]
    intro i d key consumer hd hrelease
    obtain ⟨hi, hd⟩ := hcalls hd
    show w'.counted key = _
    rw [hturn.others i d key hi hd (d.holds_of_releases hrelease)]
    exact h.releasing i d key consumer hd hrelease
  · rw [endCall_same]
    intro i d hd
    exact h.named i d (hcalls hd).2
  · rw [endCall_same]
    intro i d hd
    exact h.taken i d (hcalls hd).2
  · intro key consumer
    rw [hruns, ← hpending, intent?_endCall]
    by_cases hgone : (key = c.key ∧ consumer = c.consumer) ∧
        ((w'.unpend c).intent? c.key c.consumer).getD 0 = 0 ∧
          w'.isCounted c.key c.consumer = false
    · rw [if_pos hgone, hgone.1.1, hgone.1.2, hgone.2.1]
      rfl
    · rw [if_neg hgone]
  · intro key consumer hcount
    have hcount' := (hcounts key consumer).mp hcount
    rw [intent?_endCall, if_neg]
    · exact hunpended.mpr (h.held_turned hget hturn key consumer hcount')
    · rintro ⟨⟨rfl, rfl⟩, -, huncounted⟩
      exact Bool.false_ne_true (huncounted.symm.trans hcount'.1)
  · intro key consumer hleft
    rw [intent?_endCall] at hleft
    by_cases hgone : (key = c.key ∧ consumer = c.consumer) ∧
        ((w'.unpend c).intent? c.key c.consumer).getD 0 = 0 ∧
          w'.isCounted c.key c.consumer = false
    · rw [if_pos hgone] at hleft
      exact absurd rfl hleft
    · rw [if_neg hgone] at hleft
      rw [hcounts]
      by_cases hown : key = c.key ∧ consumer = c.consumer
      · obtain ⟨rfl, rfl⟩ := hown
        by_cases hcounted : w'.isCounted c.key c.consumer = true
        · exact .inl ⟨hcounted, or_iff_not_imp_left.mpr (h.named id c hget)⟩
        · -- Another subscribe call of the consumer is still to settle it.
          have hmore : ((w.runs c.key c.consumer).erase id).card ≠ 0 := by
            intro hnone
            rw [← hpending] at hnone
            exact hgone ⟨⟨rfl, rfl⟩, hnone, Bool.eq_false_of_not_eq_true hcounted⟩
          obtain ⟨i, hin⟩ := Finset.card_ne_zero.mp hmore
          rw [Finset.mem_erase, mem_runs] at hin
          obtain ⟨hi, d, hd, -, hkey, hconsumer⟩ := hin
          refine .inr ⟨i, d, ?_, hkey, hconsumer⟩
          rw [endCall_same]
          exact hothers hi hd
      · rcases h.settled key consumer (hunpended.mp hleft) with hcount | ⟨i, d, hd, hkey, hconsumer⟩
        · exact .inl ((hturn.counts key consumer hown).mpr hcount)
        · have hi : i ≠ id := by
            rintro rfl
            obtain rfl : c = d := Option.some.inj (hget.symm.trans hd)
            exact hown ⟨hkey.symm, hconsumer.symm⟩
          refine .inr ⟨i, d, ?_, hkey, hconsumer⟩
          rw [endCall_same]
          exact hothers hi hd

/-! ## The turns of a call -/

/-- A call goes on from its own section. -/
theorem Kept.afterOwn (h : w.Kept) (hget : w.calls.get? id = some c) (hturn : w.Turned id c w')
    (halone : w.Alone id c.key) (raised : Option Raised) : (w'.afterOwn id c raised).Kept := by
  have hlegWaits (use : LegUse) (huse : use ≠ .take) :
      (w'.setCall id { c with stage := .legWaits use }).Kept := by
    refine h.goesOn hget hturn ?_ ?_ ?_
    · intro key hholds
      rw [of_decide_eq_true hholds]
      exact halone
    · intro key consumer hrelease
      cases hrelease
    · rintro (htake | ⟨session, htake⟩)
      · exact absurd (Stage.legWaits.inj htake) huse
      · cases htake
  unfold World.afterOwn
  split
  · exact h.ends hget hturn
  · by_cases hsubscribe : (!c.subscribe) = true
    · rw [if_pos hsubscribe]
      exact hlegWaits .drop (by simp)
    · rw [if_neg hsubscribe]
      by_cases hrefused : raised = some .refused
      · rw [if_pos hrefused]
        exact hlegWaits .giveBack (by simp)
      · rw [if_neg hrefused]
        exact h.ends hget hturn

/-- A call counts its consumer, or its leg. -/
theorem Turned.acquire (hturn : w.Turned id c w') (hnamed : ¬ c.key.IsTrendbar → ¬ NamedAsLeg c.consumer)
    (hsubscribe : c.subscribe = true)
    (htarget : key = c.key ∧ consumer = c.consumer ∨ key = c.key.spotsKey ∧ consumer = c.leg)
    (halone : w.Alone id key) {w'' : World} (htouched : w'.Touched w'' key consumer) :
    w.Turned id c w'' := by
  apply hturn.trans
  apply htouched.turned htarget hnamed
  · rw [Alone, hturn.calls]
    exact halone
  · intro hrelease
    exact absurd (hrelease.symm.trans hsubscribe) Bool.false_ne_true

/-- A call counts its consumer no longer, or its leg. -/
theorem Turned.release (hturn : w.Turned id c w') (hnamed : ¬ c.key.IsTrendbar → ¬ NamedAsLeg c.consumer)
    (htarget : key = c.key ∧ consumer = c.consumer ∨ key = c.key.spotsKey ∧ consumer = c.leg)
    (halone : w.Alone id key) {w'' : World} (htouched : w'.Touched w'' key consumer)
    (hfewer : ∀ k, w''.counted k ⊆ w'.counted k) : w.Turned id c w'' := by
  apply hturn.trans
  apply htouched.turned htarget hnamed
  · rw [Alone, hturn.calls]
    exact halone
  · exact fun _ => hfewer

/-- A call runs its own section. -/
theorem Kept.own (h : w.Kept) (hget : w.calls.get? id = some c) (hturn : w.Turned id c w')
    (halone : w.Alone id c.key) : (w'.own id c).Kept := by
  have hnamed := h.named id c hget
  have hasks {w'' : World} {session : ℕ} (hturn' : w.Turned id c w'')
      (hreleases : c.subscribe = false → w''.counted c.key = {c.consumer}) :
      (w''.setCall id { c with stage := .asks session }).Kept := by
    refine h.goesOn hget hturn' ?_ ?_ ?_
    · intro key hholds
      rw [of_decide_eq_true hholds]
      exact halone
    · intro key consumer hrelease
      cases hsubscribe : c.subscribe with
      | true => simp [Call.releases, hsubscribe] at hrelease
      | false =>
        simp only [Call.releases, hsubscribe, Bool.false_eq_true, if_false, Option.some.injEq,
          Prod.mk.injEq] at hrelease
        rw [← hrelease.1, ← hrelease.2]
        exact hreleases hsubscribe
    · rintro (htake | ⟨session, htake⟩)
      · cases htake
      · cases htake
  unfold World.own
  dsimp only
  by_cases hsubscribe : c.subscribe = true
  · have htouched := touched_acquire hturn.registered c.key c.consumer
    have hturn' := hturn.acquire hnamed hsubscribe (.inl ⟨rfl, rfl⟩) halone htouched
    rw [if_pos hsubscribe]
    split
    · apply hasks hturn'
      intro hrelease
      exact absurd (hrelease.symm.trans hsubscribe) Bool.false_ne_true
    · exact h.afterOwn hget hturn' halone none
  · obtain ⟨htouched, hfewer, hlast⟩ := touched_release hturn.registered c.key c.consumer
    have hturn' := hturn.release hnamed (.inl ⟨rfl, rfl⟩) halone htouched hfewer
    rw [if_neg hsubscribe]
    split
    · rename_i session hsent
      obtain ⟨hsame, hone⟩ := hlast session hsent
      apply hasks hturn'
      intro _
      rw [hsame]
      exact hone
    · exact h.afterOwn hget hturn' halone none

/-- A call runs the section of its spots leg. -/
theorem Kept.legSection (h : w.Kept) (hget : w.calls.get? id = some c) (halone : w.Alone id c.key)
    (hspots : w.Alone id c.key.spotsKey) {use : LegUse} (huse : use = .take → c.subscribe = true) :
    (w.legSection id c use).Kept := by
  have hnamed := h.named id c hget
  have hstart : w.Turned id c w := .refl h.registered id c
  have hasks {w' : World} {session : ℕ} (hturn : w.Turned id c w')
      (hreleases : use ≠ .take → w'.counted c.key.spotsKey = {c.leg}) :
      (w'.setCall id { c with stage := .legAsks use session }).Kept := by
    refine h.goesOn hget hturn ?_ ?_ ?_
    · intro key hholds
      simp only [Call.holds, Bool.or_eq_true, decide_eq_true_eq] at hholds
      rcases hholds with rfl | rfl
      · exact halone
      · exact hspots
    · intro key consumer hrelease
      by_cases htake : use = .take
      · rw [htake] at hrelease
        cases hrelease
      · have hof := hrelease.symm.trans (Call.releases_leg rfl htake)
        obtain ⟨rfl, rfl⟩ := Prod.mk.inj (Option.some.inj hof)
        exact hreleases htake
    · rintro (htake | ⟨session', htake⟩)
      · cases htake
      · exact huse (Stage.legAsks.inj htake).1
  unfold World.legSection
  by_cases htake : use = .take
  · have hturn := hstart.acquire hnamed (huse htake) (.inr ⟨rfl, rfl⟩) hspots
      (touched_acquire h.registered c.key.spotsKey c.leg)
    simp only [htake, if_true]
    split
    · rw [← htake]
      exact hasks hturn fun hne => absurd htake hne
    · exact h.own hget hturn halone
  · obtain ⟨htouched, hfewer, hlast⟩ := touched_release h.registered c.key.spotsKey c.leg
    have hturn := hstart.release hnamed (.inr ⟨rfl, rfl⟩) hspots htouched hfewer
    simp only [htake, if_false]
    split
    · rename_i session hsent
      obtain ⟨hsame, hone⟩ := hlast session hsent
      apply hasks hturn
      intro _
      rw [hsame]
      exact hone
    · exact h.ends hget hturn

/-- A call takes the lock it waits for. -/
theorem Kept.enter (h : w.Kept) (id : ℕ) : (w.enter id).Kept := by
  unfold World.enter
  cases hget : w.calls.get? id with
  | none => exact h
  | some c =>
    dsimp only
    have hstart : w.Turned id c w := .refl h.registered id c
    split
    · by_cases hfree : w.free c.key = true
      · have halone := alone_of_free hfree id
        rw [if_neg (by simp [hfree])]
        by_cases hown : c.subscribe = false ∨ c.key.spotsKey = c.key
        · rw [if_pos hown]
          exact h.own hget hstart halone
        · rw [if_neg hown]
          by_cases hjoins : c.consumer ∈ w.counted c.key ∧ c.key ∉ w.maybeUnsubscribed
          · rw [if_pos hjoins]
            exact h.ends hget hstart
          · rw [if_neg hjoins]
            refine h.goesOn hget hstart ?_ ?_ ?_
            · intro key hholds
              rw [of_decide_eq_true hholds]
              exact halone
            · intro key consumer hrelease
              cases hrelease
            · intro _
              rw [not_or, Bool.not_eq_false] at hown
              exact hown.1
      · rw [if_pos (by simpa using hfree)]
        exact h
    · rename_i use hstage
      by_cases hfree : w.free c.key.spotsKey = true
      · rw [if_pos hfree]
        have hholds : c.holds c.key = true := by simp [Call.holds, hstage]
        apply h.legSection hget (h.alone hget hholds) (alone_of_free hfree id)
        rintro rfl
        exact h.taken id c hget (.inl hstage)
      · rw [if_neg hfree]
        exact h
    · exact h

/-- A call's request is answered. -/
theorem Kept.answered (h : w.Kept) (id : ℕ) (outcome : Outcome) : (w.answered id outcome).Kept := by
  unfold World.answered
  cases hget : w.calls.get? id with
  | none => exact h
  | some c =>
    dsimp only
    have hnamed := h.named id c hget
    have hstart : w.Turned id c w := .refl h.registered id c
    split
    · rename_i session hstage
      have halone := h.alone hget (show c.holds c.key = true by simp [Call.holds, hstage])
      by_cases hsubscribe : c.subscribe = true
      · rw [if_pos hsubscribe]
        have hturn := hstart.acquire hnamed hsubscribe (.inl ⟨rfl, rfl⟩) halone
          (touched_acquired h.registered session c.key c.consumer outcome)
        exact h.afterOwn hget hturn halone _
      · rw [if_neg hsubscribe]
        have hone := h.releasing id c c.key c.consumer hget
          (by simp [Call.releases, hstage, hsubscribe])
        obtain ⟨htouched, hfewer⟩ := touched_released h.registered hone outcome
        exact h.afterOwn hget (hstart.release hnamed (.inl ⟨rfl, rfl⟩) halone htouched hfewer) halone none
    · rename_i use session hstage
      have halone := h.alone hget (show c.holds c.key = true by simp [Call.holds, hstage])
      have hspots := h.alone hget (show c.holds c.key.spotsKey = true by simp [Call.holds, hstage])
      by_cases htake : use = .take
      · rw [if_pos htake]
        have hsubscribe := h.taken id c hget (.inr ⟨session, htake ▸ hstage⟩)
        have hturn := hstart.acquire hnamed hsubscribe (.inr ⟨rfl, rfl⟩) hspots
          (touched_acquired h.registered session c.key.spotsKey c.leg outcome)
        split
        · exact h.own hget hturn halone
        · exact h.ends hget hturn
      · rw [if_neg htake]
        have hone := h.releasing id c _ _ hget (Call.releases_leg hstage htake)
        obtain ⟨htouched, hfewer⟩ := touched_released h.registered hone outcome
        exact h.ends hget (hstart.release hnamed (.inr ⟨rfl, rfl⟩) hspots htouched hfewer)
    · exact h

/-- A call is cancelled, wherever it is. -/
theorem Kept.cancel (h : w.Kept) (id : ℕ) : (w.cancel id).Kept := by
  unfold World.cancel
  cases hget : w.calls.get? id with
  | none => exact h
  | some c =>
    dsimp only
    split
    · exact h.ends hget (.refl h.registered id c)
    · exact h.ends hget (.refl h.registered id c)
    · exact h.answered id .cancelled

/-- A call begins, with an intent of its consumer's. -/
theorem Kept.begun (h : w.Kept) (hnew : w.calls.get? id = none) {subscribe : Bool}
    (hnamed : ¬ key.IsTrendbar → ¬ NamedAsLeg consumer) :
    (w.beginCall id subscribe key consumer).Kept := by
  -- a call is the one that begins, which holds no lock yet, or one from before
  have hcalls {i : ℕ} {d : Call} (hd : (w.calls.set id { subscribe, key, consumer }).get? i = some d) :
      i = id ∧ d = { subscribe, key, consumer } ∨ w.calls.get? i = some d := by
    rcases Dict.get?_set_eq_some.mp hd with ⟨hi, hbegun⟩ | ⟨-, hold⟩
    · exact .inl ⟨hi.symm, hbegun.symm⟩
    · exact .inr hold
  have hothers {i : ℕ} {d : Call} (hd : w.calls.get? i = some d) :
      (w.calls.set id { subscribe, key, consumer }).get? i = some d := by
    have hi : id ≠ i := by
      rintro rfl
      rw [hnew] at hd
      cases hd
    rw [Dict.get?_set, if_neg hi]
    exact hd
  have hnow : (w.calls.set id { subscribe, key, consumer }).get? id =
      some { subscribe, key, consumer } := Dict.get?_set_self _ _ _
  have hintent (k : Key) (x : Consumer) := intent?_setIntent w key consumer
    (if subscribe then (w.intent? key consumer).getD 0 + 1 else (w.intent? key consumer).getD 0) k x
  refine ⟨⟨h.registered.sets, h.registered.restores⟩, ?_, ?_, ?_, ?_, ?_, ?_, ?_⟩
  · intro i j d e k hd he hheld hheld'
    rcases hcalls hd with ⟨-, rfl⟩ | hold
    · cases hheld
    · rcases hcalls he with ⟨-, rfl⟩ | hold'
      · cases hheld'
      · exact h.locks i j d e k hold hold' hheld hheld'
  · intro i d k x hd hrelease
    rcases hcalls hd with ⟨-, rfl⟩ | hold
    · cases hrelease
    · exact h.releasing i d k x hold hrelease
  · intro i d hd
    rcases hcalls hd with ⟨-, rfl⟩ | hold
    · exact hnamed
    · exact h.named i d hold
  · intro i d hd
    rcases hcalls hd with ⟨-, rfl⟩ | hold
    · rintro (htake | ⟨session, htake⟩)
      · cases htake
      · cases htake
    · exact h.taken i d hold
  · intro k x
    -- the intent counts the subscribe calls that run
    have hruns : (w.beginCall id subscribe key consumer).runs k x =
        if (k = key ∧ x = consumer) ∧ subscribe = true then insert id (w.runs k x) else w.runs k x := by
      ext i
      constructor
      · intro hin
        obtain ⟨d, hd, hof⟩ := mem_runs.mp hin
        rcases hcalls hd with ⟨rfl, rfl⟩ | hold
        · rw [if_pos ⟨⟨hof.2.1.symm, hof.2.2.symm⟩, hof.1⟩]
          exact Finset.mem_insert_self _ _
        · split
          · exact Finset.mem_insert_of_mem (mem_runs.mpr ⟨d, hold, hof⟩)
          · exact mem_runs.mpr ⟨d, hold, hof⟩
      · intro hin
        split at hin
        · rename_i hmine
          rcases Finset.mem_insert.mp hin with rfl | hin
          · exact mem_runs.mpr ⟨_, hnow, hmine.2, hmine.1.1.symm, hmine.1.2.symm⟩
          · obtain ⟨d, hd, hof⟩ := mem_runs.mp hin
            exact mem_runs.mpr ⟨d, hothers hd, hof⟩
        · obtain ⟨d, hd, hof⟩ := mem_runs.mp hin
          exact mem_runs.mpr ⟨d, hothers hd, hof⟩
    have hout : id ∉ w.runs k x := by
      intro hin
      obtain ⟨d, hd, -⟩ := mem_runs.mp hin
      rw [hnew] at hd
      cases hd
    rw [hruns]
    show ((w.setIntent key consumer _).intent? k x).getD 0 = _
    rw [hintent]
    by_cases hown : k = key ∧ x = consumer
    · obtain ⟨rfl, rfl⟩ := hown
      rw [if_pos ⟨rfl, rfl⟩, Option.getD_some, h.pending]
      by_cases hsubscribe : subscribe = true
      · rw [if_pos hsubscribe, if_pos ⟨⟨rfl, rfl⟩, hsubscribe⟩, Finset.card_insert_of_notMem hout]
      · rw [if_neg hsubscribe, if_neg fun hall => hsubscribe hall.2]
    · rw [if_neg hown, if_neg fun hall => hown hall.1, h.pending]
  · intro k x hcounts
    show (w.setIntent key consumer _).intent? k x ≠ none
    rw [hintent]
    split
    · exact Option.some_ne_none _
    · exact h.held k x hcounts
  · intro k x hleft
    by_cases hown : k = key ∧ x = consumer
    · exact .inr ⟨id, _, hnow, hown.1.symm, hown.2.symm⟩
    · have hold : w.intent? k x ≠ none := by
        intro hnone
        apply hleft
        show (w.setIntent key consumer _).intent? k x = none
        rw [hintent, if_neg hown, hnone]
      rcases h.settled k x hold with hcounts | ⟨i, d, hd, hof⟩
      · exact .inl hcounts
      · exact .inr ⟨i, d, hothers hd, hof⟩

/-! ## Everything else -/

/-- A step of the session, of a restore or of a spot leaves the calls and what they count. -/
theorem Kept.quiet (h : w.Kept) (hcalls : w'.calls = w.calls) (hintents : w'.intents = w.intents)
    (hconsumers : w'.consumers = w.consumers) (hregistered : w'.Registered) : w'.Kept := by
  have hcounted : w'.counted = w.counted := by
    funext k
    rw [World.counted, World.counted, hconsumers]
  have hcounts (k : Key) (x : Consumer) : w'.Counts k x ↔ w.Counts k x := by
    rw [Counts, Counts, isCounted_iff, isCounted_iff, hcounted]
  have hintent (k : Key) (x : Consumer) : w'.intent? k x = w.intent? k x := by
    rw [intent?, intent?, hintents]
  refine ⟨hregistered, ?_, ?_, ?_, ?_, ?_, ?_, ?_⟩
  · rw [hcalls]
    exact h.locks
  · rw [hcalls, hcounted]
    exact h.releasing
  · rw [hcalls]
    exact h.named
  · rw [hcalls]
    exact h.taken
  · intro k x
    rw [hintent, h.pending, runs, runs, hcalls]
  · intro k x hcount
    rw [hintent]
    exact h.held k x ((hcounts k x).mp hcount)
  · intro k x hleft
    rw [hintent] at hleft
    rw [hcounts, hcalls]
    exact h.settled k x hleft

/-- A step of the session keeps its restores. -/
theorem Kept.onSession (h : w.Kept) {f : Session → Session} (hf : ∀ s, (f s).restores = s.restores) :
    (w.onSession f).Kept := by
  refine h.quiet rfl rfl rfl ⟨h.registered.sets, ?_⟩
  intro s' hs' key
  obtain ⟨s, hs, rfl⟩ := Option.map_eq_some_iff.mp hs'
  rw [hf]
  exact h.registered.restores s hs key

/-- A new session has a restore registered for each key held. -/
theorem Kept.attach (h : w.Kept) : w.attach.Kept := by
  refine h.quiet rfl rfl rfl ⟨h.registered.sets, ?_⟩
  intro s hs key
  rw [← Option.some.inj hs]
  show key ∈ w.consumers.keys ↔ w.counted key ≠ ∅
  rw [← counted_of_contains h.registered, Dict.contains_eq_true, Dict.keys, List.mem_map]
  constructor
  · rintro ⟨⟨k, consumers⟩, hin, rfl⟩
    exact ⟨consumers, Dict.get?_eq_some.mpr hin⟩
  · rintro ⟨consumers, hget⟩
    exact ⟨(key, consumers), Dict.get?_eq_some.mp hget, rfl⟩

/-- A turn of a restore leaves what is counted. -/
theorem Kept.onRestores (h : w.Kept)
    (hturn : ∃ restores maybeUnsubscribed, w' = { w with restores, maybeUnsubscribed }) : w'.Kept := by
  obtain ⟨restores, maybeUnsubscribed, rfl⟩ := hturn
  exact h.quiet rfl rfl rfl ⟨h.registered.sets, h.registered.restores⟩

/-- A spot event comes. -/
theorem Kept.onSpot (h : w.Kept) (event : SpotEvent) (now : ℚ) : (w.onSpot event now).Kept := by
  unfold World.onSpot
  rw [keep_same]
  exact h.quiet rfl rfl rfl ⟨h.registered.sets, h.registered.restores⟩

/-- A bring-up begins. -/
theorem Kept.bringUp (h : w.Kept) : w.bringUp.Kept := by
  unfold World.bringUp
  split
  · exact h
  · rename_i s hs
    split
    · exact h
    · refine h.quiet rfl rfl rfl ⟨h.registered.sets, ?_⟩
      intro s' hs'
      rw [← Option.some.inj hs']
      exact h.registered.restores s hs

end World

/-! ## Runs -/

/-- No call for spots is made under the name of a trendbar consumer's leg. -/
def Action.Plain : Action → Prop
  | .call _ _ key consumer => key.IsTrendbar ∨ ¬ NamedAsLeg consumer
  | _ => True

/-- Every step keeps the books. -/
theorem World.Kept.step {w : World} (h : w.Kept) {action : Action} (hplain : action.Plain) :
    (w.step action).Kept := by
  cases action with
  | call id subscribe key consumer =>
    show (if w.calls.contains id then w else w.beginCall id subscribe key consumer).Kept
    by_cases hold : w.calls.contains id = true
    · rwa [if_pos hold]
    · rw [if_neg hold]
      apply h.begun
      · rwa [Dict.contains, Option.isSome_iff_ne_none, not_not] at hold
      · exact or_iff_not_imp_left.mp hplain
  | enter id => exact h.enter id
  | answered id outcome => exact h.answered id outcome
  | cancel id => exact h.cancel id
  | beginRestore id key =>
    show (if w.restores.contains id then w else w.beginRestore id key).Kept
    by_cases hold : w.restores.contains id = true
    · rwa [if_pos hold]
    · rw [if_neg hold]
      exact h.onRestores (w.beginRestore_same id key)
  | enterRestore id => exact h.onRestores (w.enterRestore_same id)
  | answerRestore id ok => exact h.onRestores (w.answerRestore_same id ok)
  | endRestore id => exact h.quiet rfl rfl rfl ⟨h.registered.sets, h.registered.restores⟩
  | attach => exact h.attach
  | detach =>
    refine h.quiet rfl rfl rfl ⟨h.registered.sets, ?_⟩
    intro s hs
    cases hs
  | bringUp => exact h.bringUp
  | connected => exact h.onSession fun s => s.connected_keeps.1
  | authenticated => exact h.onSession fun s => s.authenticated_keeps.1
  | restored failed => exact h.onSession fun s => (s.restored_keeps failed).1
  | lose => exact h.onSession fun s => rfl
  | stop => exact h.onSession fun s => rfl
  | spot event now => exact h.onSpot event now

/-- Nothing is counted at the start. -/
theorem World.kept_initial : ({} : World).Kept := by
  refine ⟨⟨?_, ?_⟩, ?_, ?_, ?_, ?_, ?_, ?_, ?_⟩
  · intro key consumers hget
    cases hget
  · intro s hs
    cases hs
  · intro id id' c c' key hget
    cases hget
  · intro id c key consumer hget
    cases hget
  · intro id c hget
    cases hget
  · intro id c hget
    cases hget
  · intro key consumer
    rfl
  · intro key consumer hcounts
    have hcounted := hcounts.1
    rw [World.isCounted_iff] at hcounted
    rcases hcounted with hin | hin
    · exact absurd hin (Finset.notMem_empty _)
    · exact absurd hin (Finset.notMem_empty _)
  · intro key consumer hleft
    exact absurd rfl hleft

/-- An owner holds what it has an intent for. -/
theorem World.mem_held {w : World} {owner : String} {key : Key} {name : String} :
    (key, name) ∈ w.held owner ↔ w.intent? key ⟨owner, name⟩ ≠ none := by
  unfold World.held World.intent?
  rw [List.mem_flatMap]
  constructor
  · rintro ⟨⟨k, intents⟩, hentry, hin⟩
    obtain ⟨c, hc, hsome⟩ := List.mem_filterMap.mp hin
    by_cases howner : c.owner = owner
    · rw [if_pos howner, Option.some.injEq, Prod.mk.injEq] at hsome
      obtain ⟨rfl, rfl⟩ := hsome
      obtain ⟨⟨x, pending⟩, hpending, rfl⟩ := List.mem_map.mp hc
      rw [Dict.get?_eq_some.mpr hentry, Option.bind_some, ← howner]
      exact Option.ne_none_iff_exists'.mpr ⟨pending, Dict.get?_eq_some.mpr hpending⟩
    · rw [if_neg howner] at hsome
      cases hsome
  · intro hintent
    obtain ⟨pending, hpending⟩ := Option.ne_none_iff_exists'.mp hintent
    obtain ⟨intents, hget, hget'⟩ := Option.bind_eq_some_iff.mp hpending
    refine ⟨(key, intents), Dict.get?_eq_some.mp hget, ?_⟩
    refine List.mem_filterMap.mpr ⟨⟨owner, name⟩, ?_, by simp⟩
    exact List.mem_map.mpr ⟨(⟨owner, name⟩, pending), Dict.get?_eq_some.mp hget', rfl⟩

/-- An owner's holds on spots are its intents for them. -/
theorem World.mem_spotHolds {w : World} {owner : String} {symbolId : ℤ} {name : String} :
    (symbolId, name) ∈ w.spotHolds owner ↔ w.intent? (.spots symbolId) ⟨owner, name⟩ ≠ none := by
  rw [← World.mem_held, World.spotHolds, List.mem_toFinset, List.mem_filterMap]
  constructor
  · rintro ⟨⟨key, name'⟩, hin, hsome⟩
    cases key with
    | spots symbolId' =>
      simp only [Option.some.injEq, Prod.mk.injEq] at hsome
      rwa [hsome.1, hsome.2] at hin
    | trendbar symbolId' period => cases hsome
  · intro hin
    exact ⟨_, hin, rfl⟩

/-- Its holds on trendbars are its intents for those. -/
theorem World.mem_trendbarHolds {w : World} {owner : String} {symbolId period : ℤ} {name : String} :
    (symbolId, period, name) ∈ w.trendbarHolds owner ↔
      w.intent? (.trendbar symbolId period) ⟨owner, name⟩ ≠ none := by
  rw [← World.mem_held, World.trendbarHolds, List.mem_toFinset, List.mem_filterMap]
  constructor
  · rintro ⟨⟨key, name'⟩, hin, hsome⟩
    cases key with
    | spots symbolId' => cases hsome
    | trendbar symbolId' period' =>
      simp only [Option.some.injEq, Prod.mk.injEq] at hsome
      rwa [hsome.1, hsome.2.1, hsome.2.2] at hin
  · intro hin
    exact ⟨_, hin, rfl⟩

/-- The attached session has a restore registered for exactly the keys with a consumer; with no call in
progress an owner's holds are exactly its consumers counted on any leg, a leg being its trendbar
consumer's. -/
structure InStep (w : World) : Prop where
  restores : ∀ s, w.session = some s → ∀ key, key ∈ s.restores ↔ w.counted key ≠ ∅
  spots : w.calls = Dict.empty → ∀ owner symbolId name, (symbolId, name) ∈ w.spotHolds owner ↔
    ⟨owner, name⟩ ∈ w.counted (.spots symbolId) ∧ ¬ NamedAsLeg ⟨owner, name⟩
  trendbars : w.calls = Dict.empty → ∀ owner symbolId period name,
    (symbolId, period, name) ∈ w.trendbarHolds owner ↔
      ⟨owner, name⟩ ∈ w.counted (.trendbar symbolId period) ∨
        trendbarSpotConsumer period ⟨owner, name⟩ ∈ w.counted (.spots symbolId)

/-- However calls end, counts, intents and restores are in step. -/
theorem bookkeeping_in_step {actions : List Action} (hplain : ∀ action ∈ actions, action.Plain) :
    InStep (machine.after {} actions) := by
  have hkept : (machine.after {} actions).Kept :=
    Machine.after_invariant_of_always (I := fun w : World => w.Kept)
      (fun w action h hplain => World.Kept.step h hplain) World.kept_initial
      (Machine.always_of_forall (fun action hin _ => hplain action hin) _)
  have hintent (hcalls : (machine.after {} actions).calls = Dict.empty) (key : Key)
      (consumer : Consumer) : (machine.after {} actions).intent? key consumer ≠ none ↔
        (machine.after {} actions).Counts key consumer := by
    constructor
    · intro hleft
      rcases hkept.settled key consumer hleft with hcounts | ⟨id, c, hget, -⟩
      · exact hcounts
      · rw [hcalls] at hget
        cases hget
    · exact hkept.held key consumer
  refine ⟨hkept.registered.restores, ?_, ?_⟩
  · intro hcalls owner symbolId name
    rw [World.mem_spotHolds, hintent hcalls, World.Counts, World.isCounted_iff]
    simp [Key.leg, Key.spotsKey, Key.not_isTrendbar_spots]
  · intro hcalls owner symbolId period name
    rw [World.mem_trendbarHolds, hintent hcalls, World.Counts, World.isCounted_iff]
    simp [Key.leg, Key.spotsKey, Key.isTrendbar_trendbar]

/-- One consumer's trendbars of symbol 1, and the spots with them. -/
def takesBars : List Action :=
  [.attach, .bringUp, .connected, .authenticated, .restored ∅,
    .call 0 true (.trendbar 1 5) ⟨"data", "bars"⟩, .enter 0, .enter 0, .answered 0 .ok, .answered 0 .ok]

/-- A release of trendbars cancelled in both its requests leaves both legs counted, held and registered. -/
theorem bookkeeping_in_step_cancelled :
    let actions := takesBars ++ [.call 1 false (.trendbar 1 5) ⟨"data", "bars"⟩, .enter 1, .cancel 1,
      .enter 1, .cancel 1]
    (machine.after {} actions).calls = Dict.empty ∧
      (1, 5, "bars") ∈ (machine.after {} actions).trendbarHolds "data" ∧
      InStep (machine.after {} actions) := by
  refine ⟨by decide +kernel, by decide +kernel, ?_⟩
  apply bookkeeping_in_step
  simp [takesBars, Action.Plain, Key.isTrendbar_trendbar]

/-- Spots subscribed under the name of a trendbar consumer's leg stay held once the leg is released. -/
theorem holds_of_leg_name : ¬ InStep (machine.after {}
    [.call 0 true (.trendbar 1 5) ⟨"data", "bars"⟩, .enter 0, .enter 0,
      .call 1 true (.spots 1) ⟨"data", "trendbar:5:bars"⟩, .enter 1,
      .call 2 false (.trendbar 1 5) ⟨"data", "bars"⟩, .enter 2, .enter 2]) := by
  intro h
  have hheld := (h.spots (by decide +kernel) "data" 1 "trendbar:5:bars").mp (by decide +kernel)
  exact absurd hheld.1 (by decide +kernel)

end Interrupted

end Subscriptions

end NautilusCtrader
