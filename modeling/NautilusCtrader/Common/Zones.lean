import Mathlib.Data.Int.LeastGreatest
import Mathlib.Algebra.Order.Group.Abs
import Mathlib.Algebra.Order.Group.Int
import Mathlib.Order.Bounds.Basic

/-!
# Local time

A time zone gives every UTC second an offset, piecewise constant, and reads a local time back with one
of them, by PEP 495: of two instants with one local time the first where `fold` is false and the
second where it is true, and where a local time is skipped the offset before the change or the one
after it. Where changes are of a day at most and no two within one, what a change skips is never shown
later, and the clock never falls back by more than a day.
-/

namespace Common

/-- A day, in seconds. -/
def daySecs : ℤ := 86400

/-- A time zone, in seconds. -/
structure Zone where
  /-- What is added to a UTC second to give the local time. -/
  offset : ℤ → ℤ
  /-- What is taken from a local time, by its `fold`, to give a UTC second. -/
  localOffset : (fold : Bool) → ℤ → ℤ
  bounded : ∀ t, |offset t| < daySecs
  small : ∀ t, |offset t - offset (t - 1)| ≤ daySecs
  apart : ∀ t u, offset t ≠ offset (t - 1) → offset u ≠ offset (u - 1) → t < u → daySecs ≤ u - t
  first : ∀ w t, t + offset t = w → (∀ u, u + offset u = w → t ≤ u) → localOffset false w = offset t
  second : ∀ w t, t + offset t = w → (∀ u, u + offset u = w → u ≤ t) → localOffset true w = offset t
  skipped : ∀ w t, t - 1 + offset (t - 1) < w → w < t + offset t → (∀ u, u + offset u ≠ w) →
    localOffset false w = offset (t - 1) ∧ localOffset true w = offset t

namespace Zone

variable (zone : Zone)

/-- The local time at a UTC second. -/
def wall (t : ℤ) : ℤ := t + zone.offset t

/-- An offset changes at this second. -/
def Changes (t : ℤ) : Prop := zone.offset t ≠ zone.offset (t - 1)

/-- The first instant that shows a local time, or the first after it where it is skipped. -/
def Occurs (w t : ℤ) : Prop :=
  IsLeast {u | zone.wall u = w} t ∨ (∀ u, zone.wall u ≠ w) ∧ IsLeast {u | w ≤ zone.wall u} t

variable {zone : Zone}

/-- A zone's wall clock is within a day of the instant. -/
theorem wall_bounds (t : ℤ) : t - daySecs < zone.wall t ∧ zone.wall t < t + daySecs := by
  have h := abs_lt.mp (zone.bounded t)
  unfold wall
  omega

/-- One second later the local time is a second later too, but for a change. -/
theorem wall_succ {t : ℤ} (h : ¬ zone.Changes (t + 1)) : zone.wall (t + 1) = zone.wall t + 1 := by
  have hsame : zone.offset (t + 1) = zone.offset (t + 1 - 1) := not_not.mp h
  unfold wall
  rw [hsame, add_sub_cancel_right]
  omega

/-- A wall clock falls back by less than a day. -/
theorem wall_succ_ge (t : ℤ) : zone.wall t + 1 - daySecs ≤ zone.wall (t + 1) := by
  have h := abs_le.mp (zone.small (t + 1))
  rw [add_sub_cancel_right] at h
  unfold wall
  omega

/-! ## What a change leaves behind -/

/-- From a change on, the clock never again shows less than it shows there. -/
theorem wall_ge_of_changes {t u : ℤ} (h : zone.Changes t) (htu : t ≤ u) : zone.wall t ≤ zone.wall u := by
  -- The last change up to `u`, since which the clock has gone on evenly.
  have hlast : ∃ p, zone.Changes p ∧ t ≤ p ∧ p ≤ u ∧ zone.wall t ≤ zone.wall p ∧
      zone.wall u = zone.wall p + (u - p) := by
    induction u, htu using Int.leInduction with
    | base => exact ⟨t, h, le_rfl, le_rfl, le_rfl, by omega⟩
    | succ u _ ih =>
      obtain ⟨p, hp, htp, hpu, hle, heven⟩ := ih
      by_cases hchange : zone.Changes (u + 1)
      · have happart := zone.apart p (u + 1) hp hchange (by omega)
        have hfall := zone.wall_succ_ge u
        exact ⟨u + 1, hchange, by omega, le_rfl, by omega, by omega⟩
      · have hnext := wall_succ hchange
        exact ⟨p, hp, htp, by omega, hle, by omega⟩
  obtain ⟨p, -, -, hpu, hle, heven⟩ := hlast
  omega

/-- The clock never falls back by more than a day. -/
theorem wall_le_add_day {t u : ℤ} (h : t ≤ u) : zone.wall t ≤ zone.wall u + daySecs := by
  have hcases : zone.wall u = zone.wall t + (u - t) ∨
      ∃ p, zone.Changes p ∧ p ≤ u ∧ zone.wall t ≤ zone.wall p + daySecs := by
    induction u, h using Int.leInduction with
    | base => exact .inl (by omega)
    | succ u htu ih =>
      rcases ih with heven | ⟨p, hp, hpu, hle⟩
      · by_cases hchange : zone.Changes (u + 1)
        · have hfall := zone.wall_succ_ge u
          exact .inr ⟨u + 1, hchange, le_rfl, by omega⟩
        · have hnext := wall_succ hchange
          exact .inl (by omega)
      · exact .inr ⟨p, hp, by omega, hle⟩
  have hday : 0 < daySecs := by decide
  rcases hcases with heven | ⟨p, hp, hpu, hle⟩
  · omega
  · have hlater := wall_ge_of_changes hp hpu
    omega

/-! ## The first instant that shows a local time or more -/

/-- Every local time is shown or passed at some first instant. -/
theorem exists_least (w : ℤ) : ∃ t, IsLeast {u | w ≤ zone.wall u} t := by
  have hsome : ∃ u, w ≤ zone.wall u := ⟨w + daySecs, by have := (zone.wall_bounds (w + daySecs)).1; omega⟩
  have hbelow : ∀ u, w ≤ zone.wall u → w - daySecs ≤ u := by
    intro u hu
    have := (zone.wall_bounds u).2
    omega
  obtain ⟨t, ht, hleast⟩ := Int.exists_least_of_bdd ⟨w - daySecs, hbelow⟩ hsome
  exact ⟨t, ht, fun u hu => hleast u hu⟩

variable {w t : ℤ}

/-- Before the first instant that shows a time the wall clock shows earlier ones. -/
theorem wall_lt_of_least (h : IsLeast {u | w ≤ zone.wall u} t) {u : ℤ} (hu : u < t) : zone.wall u < w := by
  by_contra hle
  exact absurd (h.2 (not_lt.mp hle)) (not_le.mpr hu)

/-- Where the first instant shows more, a change has skipped the time, and no instant shows it. -/
theorem skips_of_least (h : IsLeast {u | w ≤ zone.wall u} t) (hmore : w < zone.wall t) :
    zone.Changes t ∧ ∀ u, zone.wall u ≠ w := by
  have hchange : zone.Changes t := by
    by_contra hsame
    rw [← sub_add_cancel t 1] at hsame hmore
    have hbefore := wall_lt_of_least h (by omega : t - 1 < t)
    have hnext := wall_succ hsame
    omega
  refine ⟨hchange, fun u heq => ?_⟩
  by_cases hu : u < t
  · exact absurd heq (wall_lt_of_least h hu).ne
  · have hlater := wall_ge_of_changes hchange (not_lt.mp hu)
    omega

/-- A local time occurs when it is first shown or passed. -/
theorem occurs_iff : zone.Occurs w t ↔ IsLeast {u | w ≤ zone.wall u} t := by
  obtain ⟨least, hleast⟩ := zone.exists_least w
  have hle : w ≤ zone.wall least := hleast.1
  rcases hle.lt_or_eq with hmore | hshown
  · have hnever := (skips_of_least hleast hmore).2
    constructor
    · rintro (⟨hshown, -⟩ | ⟨-, hfirst⟩)
      · exact absurd hshown (hnever t)
      · exact hfirst
    · exact fun hfirst => .inr ⟨hnever, hfirst⟩
  · have hequal : IsLeast {u | zone.wall u = w} least :=
      ⟨hshown.symm, fun u hu => hleast.2 (le_of_eq hu.symm)⟩
    constructor
    · rintro (hfirst | ⟨hnever, -⟩)
      · rwa [hfirst.unique hequal]
      · exact absurd hshown.symm (hnever least)
    · intro hfirst
      rw [hfirst.unique hleast]
      exact .inl hequal

/-- Later local times occur no earlier. -/
theorem occurs_mono {w' t' : ℤ} (h : zone.Occurs w t) (h' : zone.Occurs w' t') (hww : w ≤ w') : t ≤ t' :=
  (occurs_iff.mp h).2 (hww.trans (occurs_iff.mp h').1)

/-- A local time has occurred by an instant that shows it or more. -/
theorem occurs_le (h : zone.Occurs w t) {u : ℤ} (hu : w ≤ zone.wall u) : t ≤ u :=
  (occurs_iff.mp h).2 hu

/-- A local time has yet to occur if no instant up to now has shown it or more. -/
theorem lt_occurs_iff (h : zone.Occurs w t) (now : ℤ) : now < t ↔ ∀ u ≤ now, zone.wall u < w := by
  have hleast := occurs_iff.mp h
  constructor
  · exact fun hnow u hu => wall_lt_of_least hleast (hu.trans_lt hnow)
  · intro hall
    by_contra hle
    exact absurd hleast.1 (not_le.mpr (hall t (not_lt.mp hle)))

/-- Local times a day apart occur at different instants, if after the second the clock shows less than
it. -/
theorem occurs_lt {t' u : ℤ} (h : zone.Occurs w t) (h' : zone.Occurs (w + daySecs) t') (hu : t' ≤ u)
    (hless : zone.wall u < w + daySecs) : t < t' := by
  have hleast := occurs_iff.mp h'
  have hday : 0 < daySecs := by decide
  have hle : w + daySecs ≤ zone.wall t' := hleast.1
  refine (occurs_mono h h' (by omega)).lt_of_ne fun heq => ?_
  subst heq
  -- At one instant the clock would have gone over both times, and would not show less after it.
  have hskips := (skips_of_least (occurs_iff.mp h) (by omega : w < zone.wall t)).1
  have hlater := wall_ge_of_changes hskips hu
  omega

/-! ## One change -/

/-- The zone whose offset changes once. -/
def oneChange (change before after : ℤ) (hbefore : |before| < daySecs) (hafter : |after| < daySecs)
    (hsmall : |after - before| ≤ daySecs) : Zone where
  offset t := if t < change then before else after
  localOffset fold w :=
    if w < change + (if fold then min before after else max before after) then before else after
  bounded t := by
    split
    · exact hbefore
    · exact hafter
  small t := by
    by_cases hbelow : t - 1 < change
    · rw [if_pos hbelow]
      split
      · rw [sub_self, abs_zero]
        decide
      · exact hsmall
    · rw [if_neg hbelow, if_neg (by omega), sub_self, abs_zero]
      decide
  apart t u ht hu hlt := by
    have hat : ∀ v, (if v < change then before else after) ≠
        (if v - 1 < change then before else after) → v = change := by
      intro v hv
      by_contra hne
      by_cases hbelow : v < change
      · rw [if_pos hbelow, if_pos (by omega)] at hv
        exact hv rfl
      · rw [if_neg hbelow, if_neg (by omega)] at hv
        exact hv rfl
    have hsame := (hat t ht).trans (hat u hu).symm
    omega
  first w t ht hfirst := by
    have hearlier := hfirst (w - before)
    simp only [Bool.false_eq_true, if_false] at ht hearlier ⊢
    split at ht <;> split at hearlier <;> split <;> omega
  second w t ht hsecond := by
    have hlater := hsecond (w - after)
    simp only [if_true] at ht hlater ⊢
    split at ht <;> split at hlater <;> split <;> omega
  skipped w t hbelow habove hnever := by
    have hearlier := hnever (w - before)
    have hlater := hnever (w - after)
    simp only [Bool.false_eq_true, if_false, if_true] at hbelow habove hearlier hlater ⊢
    split at hbelow <;> split at habove <;> split at hearlier <;> split at hlater <;> constructor <;>
      split <;> omega

end Zone

end Common
