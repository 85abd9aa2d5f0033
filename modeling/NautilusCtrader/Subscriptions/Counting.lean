import NautilusCtrader.LegIds
import NautilusCtrader.Subscriptions.Registry

/-!
# What counting a consumer changes

A call's turn counts or releases consumers on keys whose locks it holds. `Recount` says what one such
change leaves; `acquire_cases` and `release_cases` say what `_acquire` and `_release` come to.
-/

namespace NautilusCtrader

open Common

namespace Subscriptions

/-! ## The names of spots legs -/

/-- A number is written without a colon. -/
theorem colon_notMem_repr (n : ℕ) : ':' ∉ n.repr.toList := by
  rw [Nat.toList_repr]
  intro h
  have hdigit := Nat.isDigit_of_mem_toDigits (by norm_num) (by norm_num) h
  exact absurd hdigit (by decide)

/-- So is an integer. -/
theorem colon_notMem_toString (n : ℤ) : ':' ∉ (toString n).toList := by
  rw [Int.toString_eq_repr, Int.repr_eq_if]
  split
  · exact colon_notMem_repr _
  · rw [String.toList_append, List.mem_append, not_or]
    exact ⟨by decide, colon_notMem_repr _⟩

/-- What stands before a separator that neither text holds is one text. -/
theorem append_cons_inj {α : Type} {c : α} {xs ys xs' ys' : List α} (h : c ∉ xs) (h' : c ∉ xs')
    (heq : xs ++ c :: ys = xs' ++ c :: ys') : xs = xs' ∧ ys = ys' := by
  induction xs generalizing xs' with
  | nil =>
    cases xs' with
    | nil => exact ⟨rfl, (List.cons.inj heq).2⟩
    | cons x' rest' => exact absurd ((List.cons.inj heq).1 ▸ List.mem_cons_self) h'
  | cons x rest ih =>
    cases xs' with
    | nil => exact absurd ((List.cons.inj heq).1.symm ▸ List.mem_cons_self) h
    | cons x' rest' =>
      rw [List.mem_cons, not_or] at h h'
      obtain ⟨hhead, htail⟩ := List.cons.inj heq
      obtain ⟨hrest, hys⟩ := ih h.2 h'.2 htail
      exact ⟨by rw [hhead, hrest], hys⟩

/-- A leg's name says whose it is. -/
theorem trendbarSpotConsumer_injective {period period' : ℤ} {consumer consumer' : Consumer}
    (h : trendbarSpotConsumer period consumer = trendbarSpotConsumer period' consumer') :
    period = period' ∧ consumer = consumer' := by
  obtain ⟨owner, name⟩ := consumer
  obtain ⟨owner', name'⟩ := consumer'
  rw [trendbarSpotConsumer, trendbarSpotConsumer, Consumer.mk.injEq] at h
  obtain ⟨howner, hname⟩ := h
  have hlist := congrArg String.toList hname
  simp only [String.toList_append, List.append_assoc] at hlist
  have htail := List.append_cancel_left hlist
  have hcolon : ":".toList = [':'] := rfl
  rw [hcolon, List.singleton_append, List.singleton_append] at htail
  obtain ⟨hperiod, hrest⟩ :=
    append_cons_inj (colon_notMem_toString period) (colon_notMem_toString period') htail
  rw [Int.toString_eq_repr, Int.toString_eq_repr] at hperiod
  exact ⟨intRepr_injective hperiod, congrArg₂ Consumer.mk howner (String.toList_inj.mp hrest)⟩

/-- A consumer named as the spots leg of some trendbar consumer. -/
def NamedAsLeg (consumer : Consumer) : Prop :=
  ∃ period other, consumer = trendbarSpotConsumer period other

/-- A key of trendbars. -/
def Key.IsTrendbar (key : Key) : Prop := key.spotsKey ≠ key

/-- A key of trendbars is one. -/
theorem Key.isTrendbar_trendbar (symbolId period : ℤ) : (trendbar symbolId period).IsTrendbar := nofun

/-- A key of spots is none. -/
theorem Key.not_isTrendbar_spots (symbolId : ℤ) : ¬ (spots symbolId).IsTrendbar := fun h => h rfl

/-- The spots of spots are themselves. -/
theorem Key.spotsKey_spotsKey (key : Key) : key.spotsKey.spotsKey = key.spotsKey := by
  cases key <;> rfl

/-- Trendbar keys of one symbol whose consumers have one leg are one key. -/
theorem Key.leg_injective {key key' : Key} (hkey : key.IsTrendbar) (hkey' : key'.IsTrendbar)
    (hspots : key.spotsKey = key'.spotsKey) {consumer consumer' : Consumer}
    (h : key.leg consumer = key'.leg consumer') : key = key' ∧ consumer = consumer' := by
  cases key with
  | spots _ => exact absurd rfl hkey
  | trendbar symbolId period =>
    cases key' with
    | spots _ => exact absurd rfl hkey'
    | trendbar symbolId' period' =>
      obtain ⟨rfl, rfl⟩ := trendbarSpotConsumer_injective h
      cases hspots
      exact ⟨rfl, rfl⟩

/-- The leg of trendbars has the registry's own name. -/
theorem Key.namedAsLeg_leg {key : Key} (hkey : key.IsTrendbar) (consumer : Consumer) :
    NamedAsLeg (key.leg consumer) := by
  cases key with
  | spots _ => exact absurd rfl hkey
  | trendbar _ period => exact ⟨period, consumer, rfl⟩

namespace World

variable {w w' : World} {key : Key} {consumer : Consumer} {counted : Finset Consumer}

/-! ## One change -/

/-- The registry's dictionary holds no empty set, and a restore is registered for each key it holds. -/
structure Registered (w : World) : Prop where
  sets : ∀ key consumers, w.consumers.get? key = some consumers → consumers ≠ ∅
  restores : ∀ key, key ∈ w.restores ↔ w.counted key ≠ ∅

/-- `w'` is `w` with `counted` on `key`. -/
structure Recount (w w' : World) (key : Key) (counted : Finset Consumer) : Prop where
  counted_eq : ∀ k, w'.counted k = if k = key then counted else w.counted k
  registered : w'.Registered
  failed : ∀ k, k ∈ w'.failed ↔ k ∈ w.failed ∧ (k = key → counted ≠ ∅)
  same : w' = { w with consumers := w'.consumers, restores := w'.restores, failed := w'.failed }

/-- What is counted after a key's consumers are set. -/
theorem counted_set (w : World) (consumers : Finset Consumer) (restores : List Key)
    (failed : Finset Key) (k : Key) :
    ({ w with consumers := w.consumers.set key consumers, restores, failed } : World).counted k =
      if k = key then consumers else w.counted k := by
  rw [World.counted, World.counted, Dict.get?_set]
  by_cases hk : key = k
  · rw [if_pos hk, if_pos hk.symm, Option.getD_some]
  · rw [if_neg hk, if_neg (Ne.symm hk)]

/-- A key that is not registered has no consumer. -/
theorem get?_eq_none (h : w.Registered) : w.consumers.get? key = none ↔ w.counted key = ∅ := by
  rw [World.counted]
  cases hget : w.consumers.get? key with
  | none => exact ⟨fun _ => rfl, fun _ => rfl⟩
  | some consumers => exact ⟨nofun, fun hempty => absurd hempty (h.sets key consumers hget)⟩

/-- The consumers registered are those counted. -/
theorem counted_of_get? {consumers : Finset Consumer} (h : w.consumers.get? key = some consumers) :
    w.counted key = consumers := by
  rw [World.counted, h, Option.getD_some]

/-- Putting a nonempty set in place, and the key's restore where it is new. -/
theorem recount_set (h : w.Registered) (hcounted : counted ≠ ∅) {restores : List Key}
    (hrestores : ∀ k, k ∈ restores ↔ k ∈ w.restores ∨ k = key) :
    w.Recount { w with consumers := w.consumers.set key counted, restores } key counted where
  counted_eq := counted_set w counted restores w.failed
  registered := by
    constructor
    · exact Dict.forall_set h.sets hcounted
    · intro k
      rw [hrestores, counted_set w counted restores w.failed, h.restores]
      split
      · rename_i hk
        exact ⟨fun _ => hcounted, fun _ => .inr hk⟩
      · rename_i hk
        exact ⟨fun hor => hor.resolve_right hk, .inl⟩
  failed k := ⟨fun hk => ⟨hk, fun _ => hcounted⟩, And.left⟩
  same := rfl

/-- A consumer is recorded: the key counts one more. -/
theorem recount_record (h : w.Registered) (key : Key) (consumer : Consumer) :
    w.Recount (w.record key consumer) key (insert consumer (w.counted key)) := by
  refine recount_set h (Finset.insert_ne_empty _ _) fun k => ?_
  split
  · rename_i hmem
    exact ⟨.inl, fun hor => hor.elim id fun hk => hk ▸ hmem⟩
  · rw [List.mem_append, List.mem_singleton]

/-- Counting on a key that is registered already. -/
theorem recount_held (h : w.Registered) (hcounted : counted ≠ ∅) (hheld : w.counted key ≠ ∅) :
    w.Recount { w with consumers := w.consumers.set key counted } key counted :=
  recount_set h hcounted fun _ =>
    ⟨.inl, fun hor => hor.elim id fun hk => hk ▸ (h.restores key).mpr hheld⟩

/-- What is counted after a key is dropped. -/
theorem counted_drop (w : World) (key k : Key) :
    (w.drop key).counted k = if k = key then ∅ else w.counted k := by
  rw [World.counted, World.drop, Dict.get?_erase]
  split
  · rfl
  · rfl

/-- A key is dropped: it counts nobody. -/
theorem recount_drop (h : w.Registered) : w.Recount (w.drop key) key ∅ where
  counted_eq := counted_drop w key
  registered := by
    constructor
    · exact Dict.forall_erase h.sets key
    · intro k
      rw [counted_drop, World.drop, List.mem_filter, h.restores]
      by_cases hk : k = key
      · rw [if_pos hk]
        exact ⟨fun hmem => absurd hk (of_decide_eq_true hmem.2), fun hne => absurd rfl hne⟩
      · rw [if_neg hk]
        exact ⟨And.left, fun hne => ⟨hne, decide_eq_true hk⟩⟩
  failed k := by
    rw [World.drop, Finset.mem_erase]
    exact ⟨fun hk => ⟨hk.2, fun heq => absurd heq hk.1⟩,
      fun hk => ⟨fun heq => hk.2 heq rfl, hk.1⟩⟩
  same := rfl

/-! ## `_acquire` and `_release` -/

/-- `_acquire` asks the venue for a key nobody holds, and else counts at once. -/
theorem acquire_cases (h : w.Registered) (key : Key) (consumer : Consumer) :
    w.acquire key consumer = (w, true) ∧ w.counted key = ∅ ∧ w.accepting = true ∨
      ∃ w', w.acquire key consumer = (w', false) ∧
        w.Recount w' key (insert consumer (w.counted key)) ∧
        (w.counted key = ∅ → w.accepting = false) := by
  unfold World.acquire
  cases hget : w.consumers.get? key with
  | none =>
    have hempty := (get?_eq_none h).mp hget
    dsimp only
    by_cases haccepting : w.accepting = true
    · exact .inl ⟨if_pos haccepting, hempty, haccepting⟩
    · exact .inr ⟨_, if_neg haccepting, recount_record h key consumer,
        fun _ => Bool.eq_false_of_not_eq_true haccepting⟩
  | some consumers =>
    have hcounted := counted_of_get? hget
    have hheld : w.counted key ≠ ∅ := hcounted ▸ h.sets key consumers hget
    refine .inr ⟨_, rfl, ?_, fun hempty => absurd hempty hheld⟩
    rw [hcounted]
    exact recount_held h (Finset.insert_ne_empty _ _) hheld

/-- `_release` does nothing for a consumer not counted, asks the venue for the last one, and else
releases at once. -/
theorem release_cases (h : w.Registered) (key : Key) (consumer : Consumer) :
    w.release key consumer = (w, false) ∧ consumer ∉ w.counted key ∨
      w.release key consumer = (w, true) ∧ w.counted key = {consumer} ∧ w.accepting = true ∨
      ∃ w', w.release key consumer = (w', false) ∧
        w.Recount w' key ((w.counted key).erase consumer) ∧
        ((w.counted key).erase consumer = ∅ → w.accepting = false) := by
  unfold World.release
  cases hget : w.consumers.get? key with
  | none =>
    have hempty := (get?_eq_none h).mp hget
    exact .inl ⟨rfl, hempty ▸ Finset.notMem_empty _⟩
  | some consumers =>
    have hcounted := counted_of_get? hget
    have hheld : w.counted key ≠ ∅ := hcounted ▸ h.sets key consumers hget
    dsimp only
    by_cases hmem : consumer ∈ consumers
    · rw [if_neg (not_not.mpr hmem)]
      by_cases hmore : 1 < consumers.card
      · have hrest : consumers.erase consumer ≠ ∅ := by
          intro hempty
          have hcard := Finset.card_erase_add_one hmem
          rw [hempty, Finset.card_empty] at hcard
          omega
        rw [if_pos hmore]
        refine .inr (.inr ⟨_, rfl, ?_, fun hempty => absurd (hcounted ▸ hempty) hrest⟩)
        rw [hcounted]
        exact recount_held h hrest hheld
      · have hone : consumers = {consumer} := by
          refine Finset.eq_singleton_iff_unique_mem.mpr ⟨hmem, fun other hother => ?_⟩
          exact Finset.card_le_one.mp (by omega) other hother consumer hmem
        rw [if_neg hmore]
        by_cases haccepting : w.accepting = true
        · exact .inr (.inl ⟨if_pos haccepting, hcounted.trans hone, haccepting⟩)
        · refine .inr (.inr ⟨_, if_neg haccepting, ?_,
            fun _ => Bool.eq_false_of_not_eq_true haccepting⟩)
          have hnone : (w.counted key).erase consumer = ∅ := by
            rw [hcounted, hone, Finset.erase_singleton]
          rw [hnone]
          exact recount_drop h
    · rw [if_pos hmem]
      exact .inl ⟨rfl, hcounted ▸ hmem⟩

end World

end Subscriptions

end NautilusCtrader
