import NautilusCtrader.Common.Zones

/-!
# The instants of the daily checkpoints

`checkpointAt` and `nextCheckpoint` look for an occurrence of the hour on a few local days from the
local day of now, backwards and forwards. A local time occurs when the zone's clock first shows it or
passes it (`Zone.occurs_iff`), and `occurrence` finds that instant, with a search where the time is
skipped. A clock that has gone back across midnight shows a day before one whose hour has come.
-/

namespace NautilusCtrader

open Common

namespace Checkpoints

/-! ## The functions -/

/-- A `datetime`: naive, or an instant in microseconds. -/
inductive Moment
  | naive
  | aware (micros : ℤ)
deriving DecidableEq, Repr

/-- What `checkpoint_at` and `next_checkpoint` raise. -/
inductive Raised
  | naiveNow
  | hourOutside (hour : ℤ)
  /-- The `AssertionError` after the loop. -/
  | noneWithinThreeDays
deriving DecidableEq, Repr

/-- `_local_day`, in days since the epoch, with the instant it is of. -/
def localDay (now : Moment) (hour : ℤ) (zone : Zone) : Except Raised (ℤ × ℤ) :=
  match now with
  | .naive => .error .naiveNow
  | .aware micros =>
    if 0 ≤ hour ∧ hour ≤ 23 then .ok (micros, zone.wall (micros / 1000000) / daySecs)
    else .error (.hourOutside hour)

/-- The local time of `hour` on a day. -/
def wallOf (day hour : ℤ) : ℤ := day * daySecs + hour * 3600

/-- The loop of `_occurrence`: the first second of those from `low` to `high` whose local time is not
before `wall`. -/
def clockChange (zone : Zone) (wall : ℤ) : ℕ → ℤ → ℤ → ℤ
  | 0, low, _ => low
  | fuel + 1, low, high =>
    if low < high then
      let middle := (low + high) / 2
      if wall ≤ zone.wall middle then clockChange zone wall fuel low middle
      else clockChange zone wall fuel (middle + 1) high
    else low

/-- `_occurrence`: `hour` on `day` in `zone`, as a UTC second. -/
def occurrence (day hour : ℤ) (zone : Zone) : ℤ :=
  let wall := wallOf day hour
  let instant := wall - zone.localOffset false wall
  if zone.wall instant = wall then instant
  else
    -- A skipped time maps before the change with fold=1 and at or after it with fold=0.
    let low := wall - zone.localOffset true wall
    clockChange zone wall (instant - low).toNat low instant

/-- `checkpoint_at`: the most recent checkpoint at or before `now`. -/
def checkpointAt (now : Moment) (hour : ℤ) (zone : Zone) : Except Raised ℤ := do
  let day ← localDay now hour zone
  let checkpoints := (List.range 3).map fun back : ℕ => occurrence (day.2 - back) hour zone
  match checkpoints.find? fun checkpoint => checkpoint * 1000000 ≤ day.1 with
  | some checkpoint => return checkpoint
  | none => .error .noneWithinThreeDays

/-- `next_checkpoint`: the first checkpoint after `now`. -/
def nextCheckpoint (now : Moment) (hour : ℤ) (zone : Zone) : Except Raised ℤ := do
  let day ← localDay now hour zone
  let checkpoints := (List.range 3).map fun ahead : ℕ => occurrence (day.2 + ahead) hour zone
  match checkpoints.find? fun checkpoint => day.1 < checkpoint * 1000000 with
  | some checkpoint => return checkpoint
  | none => .error .noneWithinThreeDays

/-! ## One occurrence -/

variable {zone : Zone} {hour : ℤ}

/-- The search ends at the first second whose local time is not before `wall`. -/
theorem clockChange_eq {wall change : ℤ} (hbefore : ∀ t < change, zone.wall t < wall)
    (hafter : ∀ t, change ≤ t → wall ≤ zone.wall t) (fuel : ℕ) {low high : ℤ} (hlow : low ≤ change)
    (hhigh : change ≤ high) (hfuel : high - low ≤ fuel) :
    clockChange zone wall fuel low high = change := by
  induction fuel generalizing low high with
  | zero =>
    show low = change
    omega
  | succ fuel ih =>
    unfold clockChange
    by_cases hmore : low < high
    · rw [if_pos hmore]
      dsimp only
      by_cases hmiddle : wall ≤ zone.wall ((low + high) / 2)
      · rw [if_pos hmiddle]
        have hchange : change ≤ (low + high) / 2 := by
          by_contra hlt
          exact absurd (hbefore _ (not_le.mp hlt)) (not_lt.mpr hmiddle)
        exact ih hlow hchange (by omega)
      · rw [if_neg hmiddle]
        have hchange : (low + high) / 2 < change := by
          by_contra hle
          exact hmiddle (hafter _ (not_lt.mp hle))
        exact ih (by omega) hhigh (by omega)
    · rw [if_neg hmore]
      omega

/-- What `_occurrence` finds is the occurrence of the hour. -/
theorem occurrence_occurs (day hour : ℤ) (zone : Zone) :
    zone.Occurs (wallOf day hour) (occurrence day hour zone) := by
  obtain ⟨first, hfirst⟩ := zone.exists_least (wallOf day hour)
  have hoccurs := Zone.occurs_iff.mpr hfirst
  suffices occurrence day hour zone = first by rwa [this]
  have hle : wallOf day hour ≤ zone.wall first := hfirst.1
  unfold occurrence
  dsimp only
  rcases hle.lt_or_eq with hskips | hshown
  · -- No instant shows the hour, so the clock change is searched for between its two readings.
    obtain ⟨hchange, hnever⟩ := Zone.skips_of_least hfirst hskips
    have hbefore := Zone.wall_lt_of_least hfirst (by omega : first - 1 < first)
    have hskipped := zone.skipped (wallOf day hour) first hbefore hskips hnever
    rw [hskipped.1, hskipped.2, if_neg (hnever _)]
    unfold Zone.wall at hbefore hskips
    refine clockChange_eq (fun t ht => Zone.wall_lt_of_least hfirst ht) (fun t ht => ?_) _ ?_ ?_ ?_
    · exact hle.trans (Zone.wall_ge_of_changes hchange ht)
    · omega
    · omega
    · omega
  · have hreading : zone.localOffset false (wallOf day hour) = zone.offset first :=
      zone.first _ first hshown.symm fun u hu => hfirst.2 (le_of_eq hu.symm)
    have hinstant : wallOf day hour - zone.offset first = first := by
      rw [hshown]
      unfold Zone.wall
      omega
    rw [hreading, hinstant, if_pos hshown.symm]

/-! ## The days around now -/

/-- An instant that is an occurrence of the hour, of whatever local day. -/
def Daily (zone : Zone) (hour t : ℤ) : Prop := ∃ day, zone.Occurs (wallOf day hour) t

/-- The occurrence of a day is one of the hour. -/
theorem occurrence_daily (day hour : ℤ) (zone : Zone) : Daily zone hour (occurrence day hour zone) :=
  ⟨day, occurrence_occurs day hour zone⟩

/-- Later days have later occurrences. -/
theorem occurrence_mono {day day' : ℤ} (h : day ≤ day') :
    occurrence day hour zone ≤ occurrence day' hour zone := by
  refine Zone.occurs_mono (occurrence_occurs day hour zone) (occurrence_occurs day' hour zone) ?_
  unfold wallOf daySecs
  omega

/-- An occurrence is that of its day. -/
theorem Daily.eq {t : ℤ} (h : Daily zone hour t) : ∃ day, t = occurrence day hour zone := by
  obtain ⟨day, hoccurs⟩ := h
  refine ⟨day, (Zone.occurs_iff.mp hoccurs).unique ?_⟩
  exact Zone.occurs_iff.mp (occurrence_occurs day hour zone)

variable {now : ℤ}

/-- The hour of the day before now's has come. -/
theorem dayBefore_le (hhour : hour ≤ 23) :
    occurrence (zone.wall now / daySecs - 1) hour zone ≤ now := by
  refine Zone.occurs_le (occurrence_occurs _ hour zone) ?_
  unfold wallOf daySecs
  omega

/-- The hour of the day but one after now's has not come: no clock falls back so far. -/
theorem lt_dayAfterNext (hhour : 0 ≤ hour) :
    now < occurrence (zone.wall now / daySecs + 2) hour zone := by
  refine (Zone.lt_occurs_iff (occurrence_occurs _ hour zone) now).mpr fun t ht => ?_
  have hfall : zone.wall t ≤ zone.wall now + daySecs := Zone.wall_le_add_day ht
  unfold wallOf daySecs
  unfold daySecs at hfall
  omega

/-- If the hour of the day after now's has come, it came after that of now's own day. -/
theorem occurrence_lt_next (hhour : 0 ≤ hour)
    (h : occurrence (zone.wall now / daySecs + 1) hour zone ≤ now) :
    occurrence (zone.wall now / daySecs) hour zone <
      occurrence (zone.wall now / daySecs + 1) hour zone := by
  have hnext := occurrence_occurs (zone.wall now / daySecs + 1) hour zone
  have hwall : wallOf (zone.wall now / daySecs + 1) hour =
      wallOf (zone.wall now / daySecs) hour + daySecs := by
    unfold wallOf daySecs
    omega
  rw [hwall] at hnext
  refine Zone.occurs_lt (occurrence_occurs _ hour zone) hnext h ?_
  unfold wallOf daySecs
  omega

/-! ## What the functions return -/

variable {micros : ℤ}

/-- The local day of an aware instant. -/
theorem localDay_aware (hhour : 0 ≤ hour ∧ hour ≤ 23) (zone : Zone) (micros : ℤ) :
    localDay (.aware micros) hour zone = .ok (micros, zone.wall (micros / 1000000) / daySecs) :=
  if_pos hhour

/-- `checkpoint_at` looks back a day at most. -/
theorem checkpointAt_eq (hhour : 0 ≤ hour ∧ hour ≤ 23) (zone : Zone) (micros : ℤ) :
    checkpointAt (.aware micros) hour zone =
      .ok (if occurrence (zone.wall (micros / 1000000) / daySecs) hour zone ≤ micros / 1000000 then
        occurrence (zone.wall (micros / 1000000) / daySecs) hour zone
      else occurrence (zone.wall (micros / 1000000) / daySecs - 1) hour zone) := by
  have hbefore : occurrence (zone.wall (micros / 1000000) / daySecs - 1) hour zone * 1000000 ≤
      micros := by
    have hcome : occurrence (zone.wall (micros / 1000000) / daySecs - 1) hour zone ≤
        micros / 1000000 := dayBefore_le hhour.2
    omega
  have hiff : occurrence (zone.wall (micros / 1000000) / daySecs) hour zone * 1000000 ≤ micros ↔
      occurrence (zone.wall (micros / 1000000) / daySecs) hour zone ≤ micros / 1000000 := by
    omega
  unfold checkpointAt
  rw [localDay_aware hhour]
  by_cases hcome : occurrence (zone.wall (micros / 1000000) / daySecs) hour zone ≤ micros / 1000000
  · simp [bind, Except.bind, pure, Except.pure, List.range_succ, hiff, hcome]
  · simp [bind, Except.bind, pure, Except.pure, List.range_succ, hiff, hcome, hbefore]

/-- The next checkpoint is the first occurrence ahead, of three days. -/
theorem nextCheckpoint_eq (hhour : 0 ≤ hour ∧ hour ≤ 23) (zone : Zone) (micros : ℤ) :
    nextCheckpoint (.aware micros) hour zone =
      .ok (if micros / 1000000 < occurrence (zone.wall (micros / 1000000) / daySecs) hour zone then
        occurrence (zone.wall (micros / 1000000) / daySecs) hour zone
      else if micros / 1000000 < occurrence (zone.wall (micros / 1000000) / daySecs + 1) hour zone then
        occurrence (zone.wall (micros / 1000000) / daySecs + 1) hour zone
      else occurrence (zone.wall (micros / 1000000) / daySecs + 2) hour zone) := by
  have hlast : micros < occurrence (zone.wall (micros / 1000000) / daySecs + 2) hour zone * 1000000 := by
    have hahead : micros / 1000000 <
        occurrence (zone.wall (micros / 1000000) / daySecs + 2) hour zone := lt_dayAfterNext hhour.1
    omega
  have hiff : ∀ t, micros < t * 1000000 ↔ micros / 1000000 < t := by
    intro t
    omega
  unfold nextCheckpoint
  rw [localDay_aware hhour]
  rw [hiff] at hlast
  by_cases hfirst : micros / 1000000 < occurrence (zone.wall (micros / 1000000) / daySecs) hour zone
  · simp [bind, Except.bind, pure, Except.pure, List.range_succ, hiff, hfirst]
  · by_cases hsecond :
        micros / 1000000 < occurrence (zone.wall (micros / 1000000) / daySecs + 1) hour zone
    · simp [bind, Except.bind, pure, Except.pure, List.range_succ, hiff, hfirst, hsecond]
    · simp [bind, Except.bind, pure, Except.pure, List.range_succ, hiff, hfirst, hsecond, hlast]

/-- The first occurrence after now, if that of the day before has come. -/
theorem isLeast_occurrence {day : ℤ} (hcome : occurrence (day - 1) hour zone ≤ micros / 1000000)
    (hahead : micros / 1000000 < occurrence day hour zone) :
    IsLeast {t | micros < t * 1000000 ∧ Daily zone hour t} (occurrence day hour zone) := by
  refine ⟨⟨by omega, occurrence_daily day hour zone⟩, fun t ht => ?_⟩
  obtain ⟨hafter, hdaily⟩ := ht
  obtain ⟨other, rfl⟩ := hdaily.eq
  by_cases hother : day ≤ other
  · exact occurrence_mono hother
  · have hle : occurrence other hour zone ≤ occurrence (day - 1) hour zone :=
      occurrence_mono (by omega)
    omega

/-- The last occurrence up to now, if that of the day after has not come. -/
theorem isGreatest_occurrence {day : ℤ} (hcome : occurrence day hour zone ≤ micros / 1000000)
    (hahead : micros / 1000000 < occurrence (day + 1) hour zone) :
    IsGreatest {t | t * 1000000 ≤ micros ∧ Daily zone hour t} (occurrence day hour zone) := by
  refine ⟨⟨by omega, occurrence_daily day hour zone⟩, fun t ht => ?_⟩
  obtain ⟨hbefore, hdaily⟩ := ht
  obtain ⟨other, rfl⟩ := hdaily.eq
  by_cases hother : other ≤ day
  · exact occurrence_mono hother
  · have hle : occurrence (day + 1) hour zone ≤ occurrence other hour zone :=
      occurrence_mono (by omega)
    omega

/-- `next_checkpoint` always finds the first occurrence after now. -/
theorem nextCheckpoint_isLeast (hhour : 0 ≤ hour ∧ hour ≤ 23) (zone : Zone) (micros : ℤ) :
    ∃ next, nextCheckpoint (.aware micros) hour zone = .ok next ∧
      IsLeast {t | micros < t * 1000000 ∧ Daily zone hour t} next := by
  refine ⟨_, nextCheckpoint_eq hhour zone micros, ?_⟩
  by_cases hfirst : micros / 1000000 < occurrence (zone.wall (micros / 1000000) / daySecs) hour zone
  · rw [if_pos hfirst]
    exact isLeast_occurrence (dayBefore_le hhour.2) hfirst
  rw [if_neg hfirst]
  by_cases hsecond :
      micros / 1000000 < occurrence (zone.wall (micros / 1000000) / daySecs + 1) hour zone
  · rw [if_pos hsecond]
    refine isLeast_occurrence ?_ hsecond
    rw [add_sub_cancel_right]
    exact not_lt.mp hfirst
  · rw [if_neg hsecond]
    refine isLeast_occurrence ?_ (lt_dayAfterNext hhour.1)
    rw [show zone.wall (micros / 1000000) / daySecs + 2 - 1 =
      zone.wall (micros / 1000000) / daySecs + 1 by omega]
    exact not_lt.mp hsecond

/-- `checkpoint_at` finds the last occurrence up to now just if that of the next local day has not
come. -/
theorem checkpointAt_isGreatest_iff (hhour : 0 ≤ hour ∧ hour ≤ 23) (zone : Zone) (micros : ℤ) :
    (∃ last, checkpointAt (.aware micros) hour zone = .ok last ∧
      IsGreatest {t | t * 1000000 ≤ micros ∧ Daily zone hour t} last) ↔
    micros / 1000000 < occurrence (zone.wall (micros / 1000000) / daySecs + 1) hour zone := by
  rw [checkpointAt_eq hhour]
  constructor
  · rintro ⟨last, hlast, hgreatest⟩
    obtain rfl := Except.ok.inj hlast
    by_contra hcome
    have hcome := not_lt.mp hcome
    have hlater := occurrence_lt_next hhour.1 hcome
    -- The occurrence of the next day has come, and what is returned is earlier.
    have hle := hgreatest.2 ⟨by omega, occurrence_daily (zone.wall (micros / 1000000) / daySecs + 1)
      hour zone⟩
    rw [if_pos (by omega)] at hle
    omega
  · intro hahead
    refine ⟨_, rfl, ?_⟩
    by_cases hcome : occurrence (zone.wall (micros / 1000000) / daySecs) hour zone ≤ micros / 1000000
    · rw [if_pos hcome]
      exact isGreatest_occurrence hcome hahead
    · rw [if_neg hcome]
      refine isGreatest_occurrence (dayBefore_le hhour.2) ?_
      rw [sub_add_cancel]
      exact not_le.mp hcome

/-- Both functions return, and what they return is the last occurrence of the hour up to now and the
first after it, just if up to now the zone's clock has never shown the hour of the local day after
now's, or more. -/
theorem checkpoints_right_iff (zone : Zone) (hour : ℤ) (hhour : 0 ≤ hour ∧ hour ≤ 23) (micros : ℤ) :
    (∃ last next, checkpointAt (.aware micros) hour zone = .ok last ∧
      nextCheckpoint (.aware micros) hour zone = .ok next ∧
      IsGreatest {t | t * 1000000 ≤ micros ∧ Daily zone hour t} last ∧
      IsLeast {t | micros < t * 1000000 ∧ Daily zone hour t} next) ↔
    ∀ t ≤ micros / 1000000,
      zone.wall t < wallOf (zone.wall (micros / 1000000) / daySecs + 1) hour := by
  rw [← Zone.lt_occurs_iff (occurrence_occurs _ hour zone), ← checkpointAt_isGreatest_iff hhour]
  constructor
  · rintro ⟨last, next, hlast, -, hgreatest, -⟩
    exact ⟨last, hlast, hgreatest⟩
  · rintro ⟨last, hlast, hgreatest⟩
    obtain ⟨next, hnext, hleast⟩ := nextCheckpoint_isLeast hhour zone micros
    exact ⟨last, next, hlast, hnext, hgreatest, hleast⟩

/-! ## A clock that goes back across midnight -/

/-- St. John's in 2010: on 7 November at 00:01, 2:30 behind, the clock went back to 23:01. -/
def stJohns : Zone :=
  Zone.oneChange 1289097060 (-9000) (-12600) (by decide) (by decide) (by decide)

/-- By noon of the day before, the clock is right. -/
theorem noon_right : ∃ last next, checkpointAt (.aware 1289053800000000) 0 stJohns = .ok last ∧
    nextCheckpoint (.aware 1289053800000000) 0 stJohns = .ok next ∧
    IsGreatest {t | t * 1000000 ≤ 1289053800000000 ∧ Daily stJohns 0 t} last ∧
    IsLeast {t | 1289053800000000 < t * 1000000 ∧ Daily stJohns 0 t} next := by
  refine (checkpoints_right_iff stJohns 0 (by decide) 1289053800000000).mpr fun t ht => ?_
  have hnow : stJohns.wall (1289053800000000 / 1000000) = 1289044800 := by decide
  have hwall : stJohns.wall t = t - 9000 := by
    show t + (if t < 1289097060 then (-9000 : ℤ) else -12600) = t - 9000
    rw [if_pos (by omega)]
    omega
  rw [hnow, hwall]
  unfold wallOf daySecs
  omega

/-- At 23:11 midnight has been eleven minutes ago by the clock of before, and the checkpoint returned is
that of the midnight before. -/
theorem midnight_missed : ¬ ∃ last next, checkpointAt (.aware 1289097660000000) 0 stJohns = .ok last ∧
    nextCheckpoint (.aware 1289097660000000) 0 stJohns = .ok next ∧
    IsGreatest {t | t * 1000000 ≤ 1289097660000000 ∧ Daily stJohns 0 t} last ∧
    IsLeast {t | 1289097660000000 < t * 1000000 ∧ Daily stJohns 0 t} next := by
  rintro ⟨last, next, hlast, -, hgreatest, -⟩
  have hreturned : checkpointAt (.aware 1289097660000000) 0 stJohns = .ok 1289010600 := by
    decide +kernel
  have hmidnight : occurrence 14920 0 stJohns = 1289097000 := by decide +kernel
  obtain rfl := Except.ok.inj (hreturned.symm.trans hlast)
  have hdaily := occurrence_daily 14920 0 stJohns
  rw [hmidnight] at hdaily
  exact absurd (hgreatest.2 ⟨by decide, hdaily⟩) (by decide)

end Checkpoints

end NautilusCtrader
