import NautilusCtrader.Common.Machine
import Mathlib.Data.List.Nodup
import Mathlib.Order.Lattice

/-!
# A value that is only replaced by a newer one

A state holds a stamped value, and an input may offer another: it is taken unless it is older than the
one held. Over a run, an offer with a stamp above all others is held at the end just if it was taken
or already held at the start, whatever the order of the inputs.

Values offered one after another need no machine: `keepNewer` is one offer, and a fold over offers with
stamps of their own leaves the newest whatever their order (`foldl_keepNewer_perm`).
-/

namespace Common

variable {σ ι ρ α τ : Type} [LinearOrder τ]

/-- The value held once `offer`, if there is one, was made to a state that holds `held`. -/
def newer (stamp : α → τ) (held : α) (offer : Option α) : α :=
  match offer with
  | none => held
  | some value => if stamp value < stamp held then held else value

/-- A machine whose inputs, as far as they meet `cond`, replace what its states hold by what they offer
unless that is older. -/
structure Newest (m : Machine σ ι ρ) (cond : σ → ι → Prop) (stamp : α → τ) (held : σ → α)
    (offers : σ → ι → Option α) : Prop where
  step : ∀ s i, cond s i → held (m.step s i).1 = newer stamp (held s) (offers s i)

variable {stamp : α → τ} {held value : α} {offer : Option α}

/-- Older offers leave what is held. -/
theorem newer_of_older (h : ∀ other ∈ offer, stamp other < stamp held) :
    newer stamp held offer = held := by
  unfold newer
  split
  · rfl
  · exact if_pos (h _ rfl)

/-- The newest value is the newer of any two. -/
theorem newer_of_newest (h : stamp held ≤ stamp value) : newer stamp held (some value) = value :=
  if_neg (not_lt.mpr h)

/-- What is held below a bound stays below it under offers below it. -/
theorem newer_lt {bound : τ} (hheld : stamp held < bound) (h : ∀ other ∈ offer, stamp other < bound) :
    stamp (newer stamp held offer) < bound := by
  unfold newer
  split
  · exact hheld
  · split
    · exact hheld
    · exact h _ rfl

namespace Newest

variable {m : Machine σ ι ρ} {cond : σ → ι → Prop} {held : σ → α} {offers : σ → ι → Option α}

/-- Every offer of a run is stamped below `bound`. -/
def Below (m : Machine σ ι ρ) (stamp : α → τ) (offers : σ → ι → Option α) (bound : τ) (s : σ)
    (is : List ι) : Prop :=
  m.Always (fun s i => ∀ other ∈ offers s i, stamp other < bound) s is

/-- A run of older offers leaves what is held. -/
theorem after_of_older (h : Newest m cond stamp held offers) {s : σ} {is : List ι}
    (hcond : m.Always cond s is) (hbelow : Below m stamp offers (stamp (held s)) s is) :
    held (m.after s is) = held s := by
  have hrun := Machine.after_invariant_of_always
    (I := fun t => held t = held s)
    (fun t i ht hi => ?_) rfl (hcond.and hbelow)
  · exact hrun
  · rw [h.step t i hi.1, ht]
    exact newer_of_older hi.2

/-- A run of offers below a bound leaves what is held below it. -/
theorem after_lt (h : Newest m cond stamp held offers) {s : σ} {is : List ι} {bound : τ}
    (hcond : m.Always cond s is) (hbelow : Below m stamp offers bound s is)
    (hheld : stamp (held s) < bound) : stamp (held (m.after s is)) < bound :=
  Machine.after_invariant_of_always (I := fun t => stamp (held t) < bound)
    (fun t i ht hi => by
      rw [h.step t i hi.1]
      exact newer_lt ht hi.2) hheld (hcond.and hbelow)

/-- **The newest offer.** Where every other offer of a run is older than `value`, and one input may
offer it, the run ends with `value` just if it was held at the start, or nothing newer was and the
input does offer it. -/
theorem holds_iff (h : Newest m cond stamp held offers) {s : σ} {before later : List ι} {i : ι}
    {value : α} (hcond : m.Always cond s (before ++ i :: later))
    (hbefore : Below m stamp offers (stamp value) s before)
    (hlater : Below m stamp offers (stamp value) (m.step (m.after s before) i).1 later)
    (hoffer : ∀ other ∈ offers (m.after s before) i, other = value) :
    held (m.after s (before ++ i :: later)) = value ↔
      held s = value ∨ stamp (held s) ≤ stamp value ∧ offers (m.after s before) i = some value := by
  rw [Machine.always_append] at hcond
  obtain ⟨hfirst, hnow, hrest⟩ := hcond
  rw [Machine.after_append, Machine.after_cons]
  have hstep := h.step (m.after s before) i hnow
  -- the input decides: nothing later is newer than `value`
  have hend (heq : held (m.step (m.after s before) i).1 = value) :
      held (m.after (m.step (m.after s before) i).1 later) = value := by
    rw [← heq] at hlater
    exact (h.after_of_older hrest hlater).trans heq
  have hsmall (hlt : stamp (held (m.step (m.after s before) i).1) < stamp value) :
      held (m.after (m.step (m.after s before) i).1 later) ≠ value := by
    intro heq
    have hstill := h.after_lt hrest hlater hlt
    rw [heq] at hstill
    exact lt_irrefl _ hstill
  -- is what was held at the start older than `value`, as old, or newer
  rcases lt_trichotomy (stamp (held s)) (stamp value) with hlt | heq | hgt
  · have hbelow := h.after_lt hfirst hbefore hlt
    cases hoffers : offers (m.after s before) i with
    | none =>
      rw [hoffers] at hstep
      have hheld : held (m.step (m.after s before) i).1 = held (m.after s before) := hstep
      refine ⟨fun hend => absurd hend (hsmall (hheld ▸ hbelow)), ?_⟩
      rintro (hstart | ⟨-, hsome⟩)
      · rw [hstart] at hlt
        exact absurd hlt (lt_irrefl _)
      · cases hsome
    | some other =>
      obtain rfl := hoffer other hoffers
      rw [hoffers, newer_of_newest hbelow.le] at hstep
      exact ⟨fun _ => .inr ⟨hlt.le, rfl⟩, fun _ => hend hstep⟩
  · have hheld : held (m.after s before) = held s := by
      refine h.after_of_older hfirst ?_
      rw [heq]
      exact hbefore
    cases hoffers : offers (m.after s before) i with
    | none =>
      rw [hoffers, hheld] at hstep
      have hkept : held (m.step (m.after s before) i).1 = held s := hstep
      rw [← heq, ← hkept] at hlater
      rw [h.after_of_older hrest hlater, hkept]
      refine ⟨.inl, ?_⟩
      rintro (hstart | ⟨-, hsome⟩)
      · exact hstart
      · cases hsome
    | some other =>
      obtain rfl := hoffer other hoffers
      rw [hoffers, hheld, newer_of_newest heq.le] at hstep
      exact ⟨fun _ => .inr ⟨heq.le, rfl⟩, fun _ => hend hstep⟩
  · -- nothing offered is as new as what was held
    have hall (t : σ) (is : List ι) (hc : m.Always cond t is)
        (hb : Below m stamp offers (stamp value) t is) (ht : stamp value < stamp (held t)) :
        held (m.after t is) = held t :=
      h.after_of_older hc (hb.mono fun _ _ hi other hother => lt_trans (hi other hother) ht)
    have hheld := hall s before hfirst hbefore hgt
    have hkept : held (m.step (m.after s before) i).1 = held s := by
      rw [hstep, hheld]
      refine newer_of_older fun other hother => ?_
      rw [hoffer other hother]
      exact hgt
    rw [← hkept] at hgt
    rw [hall _ later hrest hlater hgt, hkept]
    rw [hkept] at hgt
    refine ⟨.inl, ?_⟩
    rintro (hstart | ⟨hle, -⟩)
    · exact hstart
    · exact absurd hle (not_le.mpr hgt)

end Newest

/-! ## Values offered one after another -/

/-- When a stamp takes the place of another: an earlier one never, a later one always, and one of the
same time either way. -/
structure Supersedes (accepts : τ → τ → Prop) : Prop where
  of_lt : ∀ held offered, held < offered → accepts held offered
  le : ∀ held offered, accepts held offered → held ≤ offered
  trans : ∀ held middle offered, accepts held middle → accepts middle offered → accepts held offered

/-- What is newer may supersede. -/
theorem supersedes_lt : Supersedes (fun held offered : τ => held < offered) :=
  ⟨fun _ _ h => h, fun _ _ h => h.le, fun _ _ _ h h' => h.trans h'⟩

/-- Or what is as new. -/
theorem supersedes_le : Supersedes (fun held offered : τ => held ≤ offered) :=
  ⟨fun _ _ h => h.le, fun _ _ h => h, fun _ _ _ h h' => h.trans h'⟩

/-- The value held once another was offered. -/
def keepNewer (accepts : τ → τ → Prop) [DecidableRel accepts] (stamp : α → τ) (held offered : α) : α :=
  if accepts (stamp held) (stamp offered) then offered else held

/-- What offers to `held` leave: it, where none takes its place, or the newest of them. -/
def Settles (accepts : τ → τ → Prop) (stamp : α → τ) (held : α) (offers : List α) (value : α) : Prop :=
  value = held ∧ (∀ offered ∈ offers, ¬ accepts (stamp held) (stamp offered)) ∨
    value ∈ offers ∧ accepts (stamp held) (stamp value) ∧
      ∀ offered ∈ offers, stamp offered ≤ stamp value

section Folded

variable {accepts : τ → τ → Prop} [DecidableRel accepts]

/-- Offers taken one after the other settle on the last that supersedes. -/
theorem settles_foldl (h : Supersedes accepts) (stamp : α → τ) (held : α) (offers : List α) :
    Settles accepts stamp held offers (offers.foldl (keepNewer accepts stamp) held) := by
  have hle {held offered : α} (hnot : ¬ accepts (stamp held) (stamp offered)) :
      stamp offered ≤ stamp held := not_lt.mp fun hlt => hnot (h.of_lt _ _ hlt)
  induction offers generalizing held with
  | nil => exact .inl ⟨rfl, fun _ hin => absurd hin List.not_mem_nil⟩
  | cons first offers ih =>
    rw [List.foldl_cons]
    by_cases hfirst : accepts (stamp held) (stamp first)
    · have hkept : keepNewer accepts stamp held first = first := if_pos hfirst
      rw [hkept]
      rcases ih first with ⟨hsame, hnone⟩ | ⟨hmem, haccepts, hall⟩
      · rw [hsame]
        refine .inr ⟨List.mem_cons_self, hfirst, fun offered hoffered => ?_⟩
        rcases List.mem_cons.mp hoffered with rfl | hrest
        · exact le_refl _
        · exact hle (hnone offered hrest)
      · refine .inr ⟨List.mem_cons_of_mem _ hmem, h.trans _ _ _ hfirst haccepts,
          fun offered hoffered => ?_⟩
        rcases List.mem_cons.mp hoffered with rfl | hrest
        · exact h.le _ _ haccepts
        · exact hall offered hrest
    · have hkept : keepNewer accepts stamp held first = held := if_neg hfirst
      rw [hkept]
      rcases ih held with ⟨hsame, hnone⟩ | ⟨hmem, haccepts, hall⟩
      · refine .inl ⟨hsame, fun offered hoffered => ?_⟩
        rcases List.mem_cons.mp hoffered with rfl | hrest
        · exact hfirst
        · exact hnone offered hrest
      · refine .inr ⟨List.mem_cons_of_mem _ hmem, haccepts, fun offered hoffered => ?_⟩
        rcases List.mem_cons.mp hoffered with rfl | hrest
        · exact (hle hfirst).trans (h.le _ _ haccepts)
        · exact hall offered hrest

omit [DecidableRel accepts] in
/-- Offers with stamps of their own leave one value. -/
theorem Settles.unique {held value value' : α} {offers : List α} (hnodup : (offers.map stamp).Nodup)
    (h : Settles accepts stamp held offers value) (h' : Settles accepts stamp held offers value') :
    value = value' := by
  rcases h with ⟨rfl, hnone⟩ | ⟨hmem, haccepts, hall⟩
  · rcases h' with ⟨rfl, -⟩ | ⟨hmem', haccepts', -⟩
    · rfl
    · exact absurd haccepts' (hnone value' hmem')
  · rcases h' with ⟨rfl, hnone'⟩ | ⟨hmem', -, hall'⟩
    · exact absurd haccepts (hnone' value hmem)
    · exact List.inj_on_of_nodup_map hnodup hmem hmem' (le_antisymm (hall' value hmem) (hall value' hmem'))

/-- **Any order.** Offers with stamps of their own leave the same whatever their order. -/
theorem foldl_keepNewer_perm (h : Supersedes accepts) {offers offers' : List α}
    (hperm : offers.Perm offers') (hnodup : (offers.map stamp).Nodup) (held : α) :
    offers.foldl (keepNewer accepts stamp) held = offers'.foldl (keepNewer accepts stamp) held := by
  refine Settles.unique hnodup (settles_foldl h stamp held offers) ?_
  rcases settles_foldl h stamp held offers' with ⟨hsame, hnone⟩ | ⟨hmem, haccepts, hall⟩
  · exact .inl ⟨hsame, fun offered hin => hnone offered (hperm.mem_iff.mp hin)⟩
  · exact .inr ⟨hperm.mem_iff.mpr hmem, haccepts, fun offered hin =>
      hall offered (hperm.mem_iff.mp hin)⟩

end Folded

end Common
