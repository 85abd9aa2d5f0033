import NautilusCtrader.Balance.Background
import Mathlib.Data.List.Chain

/-!
# The timer's checkpoints

The timer is armed once, and from then on each firing arms it for the next checkpoint. So it fires for
one occurrence of the hour after the other, whatever the clock shows, and passes one over only when it
fires after that one's own grace.
-/

namespace NautilusCtrader

open Common Checkpoints

namespace BalanceHistory

/-- The checkpoints the timer fired for, in order. -/
def fired (told : List Record) : List ℤ :=
  told.filterMap fun
    | .fired tMs => some tMs
    | _ => none

/-- The firings of the timer in a run: when each was, and the checkpoint it was for. -/
def firings (settings : Settings) : BalanceCheckpoint → List (Moment × Action) → List (Moment × ℤ)
  | _, [] => []
  | b, (moment, action) :: rest =>
    (fired (b.act settings moment action).2).map (moment, ·) ++
      firings settings (b.act settings moment action).1 rest

/-- `later` is for a checkpoint after that of `first`, and each occurrence of the hour between them was
past its grace when `first` armed the timer anew. -/
def Follows (hour : ℤ) (zone : Zone) (first later : Moment × ℤ) : Prop :=
  first.2 < later.2 ∧ ∀ t, Daily zone hour t → first.2 < t * 1000 → t * 1000 < later.2 →
    t * 1000 + graceMs ≤ first.1.nowMs

/-- A checkpoint, in milliseconds, is an occurrence of the hour. -/
def Occurrence (hour : ℤ) (zone : Zone) (tMs : ℤ) : Prop := ∃ t, tMs = t * 1000 ∧ Daily zone hour t

/-- What holds of the timer after a run that scheduled it once at most. -/
structure Timed (hour : ℤ) (zone : Zone) (inputs : List (Moment × Action)) (done : List (Moment × ℤ))
    (b : BalanceCheckpoint) : Prop where
  chain : done.IsChain (Follows hour zone)
  occurs : ∀ firing ∈ done, Occurrence hour zone firing.2
  armed : ∀ tMs, b.timer = some tMs → Occurrence hour zone tMs ∧
    ∀ last ∈ done.getLast?, ∀ moment, Follows hour zone last (moment, tMs)
  unscheduled : (∀ input ∈ inputs, input.2 ≠ .schedule) → b.timer = none ∧ done = []

variable {b : BalanceCheckpoint} {id : ℕ} {moment : Moment} {hour : ℤ} {zone : Zone}
  {inputs : List (Moment × Action)} {done : List (Moment × ℤ)}

/-- A further input adds what it fires. -/
theorem firings_append (settings : Settings) (b : BalanceCheckpoint) (inputs : List (Moment × Action))
    (moment : Moment) (action : Action) :
    firings settings b (inputs ++ [(moment, action)]) = firings settings b inputs ++
      (fired (((BalanceCheckpoint.machine settings).after b inputs).act settings moment action).2).map
        (moment, ·) := by
  induction inputs generalizing b with
  | nil => exact List.append_nil _
  | cons input inputs ih =>
    rw [List.cons_append, firings, firings, ih, List.append_assoc, Machine.after_cons]
    rfl

/-- The firings are those that were told of. -/
theorem firings_told (settings : Settings) (b : BalanceCheckpoint) (inputs : List (Moment × Action)) :
    (firings settings b inputs).map Prod.snd = fired ((BalanceCheckpoint.machine settings).told b inputs) := by
  induction inputs generalizing b with
  | nil => rfl
  | cons input inputs ih =>
    rw [firings, List.map_append, ih, Machine.told_cons, fired, fired, fired, List.filterMap_append,
      List.map_map]
    refine congrArg (· ++ _) ?_
    exact List.map_id _

/-- A step that leaves the timer or clears it, and fires nothing. -/
theorem Timed.quiet {input : Moment × Action} {later : BalanceCheckpoint} {more : List Record}
    (h : Timed hour zone inputs done b) (htimer : later.timer = b.timer ∨ later.timer = none)
    (hmore : fired more = []) :
    Timed hour zone (inputs ++ [input]) (done ++ (fired more).map (moment, ·)) later := by
  rw [hmore, List.map_nil, List.append_nil]
  refine ⟨h.chain, h.occurs, fun tMs htMs => ?_, fun hnone => ?_⟩
  · rcases htimer with hsame | hcleared
    · exact h.armed tMs (hsame ▸ htMs)
    · rw [hcleared] at htMs
      cases htMs
  · obtain ⟨hidle, hempty⟩ := h.unscheduled fun other hother =>
      hnone other (List.mem_append_left _ hother)
    refine ⟨?_, hempty⟩
    rcases htimer with hsame | hcleared
    · exact hsame.trans hidle
    · exact hcleared

/-- What a task tells has nothing of the timer. -/
theorem Ran.fired {done : BalanceCheckpoint × List Record} (h : Ran id b done) :
    BalanceHistory.fired done.2 = [] ∧ (done.1.timer = b.timer) := by
  cases h with
  | quiet hquiet htold =>
    refine ⟨List.filterMap_eq_nil_iff.mpr fun record hrecord => ?_, hquiet.timer⟩
    obtain ⟨request, rfl⟩ := htold record hrecord
    rfl
  | wrote hquiet hdue => exact ⟨rfl, hquiet.timer⟩
  | started settle hquiet hdue => exact ⟨rfl, (cancelTask_frame _).2.2.2.1.trans hquiet.timer⟩

/-- The timer is armed for the first occurrence after `afterMs`. -/
theorem arm_next (b : BalanceCheckpoint) (moment : Moment) {settings : Settings}
    (hsettings : settings.hour = some hour) (hhour : 0 ≤ hour ∧ hour ≤ 23) (afterMs : ℤ) :
    ∃ t delayMs, b.arm settings moment afterMs =
        some ({ b with timer := some (t * 1000) }, [.armed (t * 1000) delayMs]) ∧
      afterMs < t * 1000 ∧ Daily settings.zone hour t ∧
      ∀ s, Daily settings.zone hour s → afterMs < s * 1000 → t ≤ s := by
  obtain ⟨t, hnext, ⟨hafter, hdaily⟩, hleast⟩ :=
    nextCheckpoint_isLeast hhour settings.zone (afterMs * 1000)
  refine ⟨t, max 0 (t * 1000 + graceMs - moment.nowMs), ?_, by omega, hdaily, fun s hs hlater => ?_⟩
  · simp [BalanceCheckpoint.arm, hsettings, hnext]
  · exact hleast ⟨by omega, hs⟩

/-- The timer is armed for the first time. -/
theorem timed_scheduled {tMs delayMs : ℤ} (hoccurs : Occurrence hour zone tMs) :
    Timed hour zone (inputs ++ [(moment, .schedule)])
      ([] ++ (fired [.armed tMs delayMs]).map (moment, ·)) { b with timer := some tMs } := by
  refine ⟨List.IsChain.nil, fun firing hfiring => (by cases hfiring), fun other hother => ?_,
    fun hnone => ?_⟩
  · obtain rfl := Option.some.inj hother
    exact ⟨hoccurs, fun last hlast => by cases hlast⟩
  · exact absurd rfl (hnone (moment, .schedule) (by simp))

/-- The timer fires and is armed again. -/
theorem Timed.fires (h : Timed hour zone inputs done b) {tMs nextMs delayMs : ℤ} {id : ℕ}
    (hset : b.timer = some tMs) {later : BalanceCheckpoint} (htimer : later.timer = some nextMs)
    (hoccurs : Occurrence hour zone nextMs)
    (hfollows : ∀ next, Follows hour zone (moment, tMs) (next, nextMs)) :
    Timed hour zone (inputs ++ [(moment, .fires)])
      (done ++ (fired [.fired tMs, .armed nextMs delayMs, .started id]).map (moment, ·)) later := by
  have hfired : (fired [.fired tMs, .armed nextMs delayMs, .started id]).map (moment, ·) =
      [(moment, tMs)] := rfl
  rw [hfired]
  obtain ⟨hnow, hafter⟩ := h.armed tMs hset
  refine ⟨?_, ?_, fun other hother => ?_, fun hnone => ?_⟩
  · refine List.isChain_append.mpr ⟨h.chain, List.IsChain.singleton _, ?_⟩
    intro last hlast first hfirst
    obtain rfl := Option.some.inj hfirst
    exact hafter last hlast moment
  · intro firing hfiring
    rcases List.mem_append.mp hfiring with hold | hnew
    · exact h.occurs firing hold
    · obtain rfl := List.mem_singleton.mp hnew
      exact hnow
  · obtain rfl := Option.some.inj (htimer.symm.trans hother)
    refine ⟨hoccurs, fun last hlast => ?_⟩
    rw [List.getLast?_append, List.getLast?_singleton] at hlast
    obtain rfl := Option.some.inj hlast
    exact hfollows
  · have hidle := (h.unscheduled fun other hother => hnone other (List.mem_append_left _ hother)).1
    rw [hset] at hidle
    cases hidle

/-- One step. -/
theorem Timed.act {settings : Settings} (hsettings : settings.hour = some hour)
    (hhour : 0 ≤ hour ∧ hour ≤ 23) (h : Timed hour settings.zone inputs done b) (action : Action)
    (honce : action = .schedule → ∀ input ∈ inputs, input.2 ≠ .schedule) :
    Timed hour settings.zone (inputs ++ [(moment, action)])
      (done ++ (fired (b.act settings moment action).2).map (moment, ·)) (b.act settings moment action).1 := by
  obtain ⟨-, -, -, htimer, -⟩ := cancelTask_frame b
  cases action with
  | refresh trader bounded =>
    show Timed hour settings.zone _ (done ++ (fired (b.refresh settings moment trader bounded).2).map (moment, ·))
      (b.refresh settings moment trader bounded).1
    unfold BalanceCheckpoint.refresh
    dsimp only
    split
    · split
      · exact h.quiet (.inl htimer) rfl
      · exact h.quiet (.inl htimer) rfl
    · have hran : Ran b.cancelTask.begun { b.cancelTask with begun := b.cancelTask.begun + 1 }
          (({ b.cancelTask with begun := b.cancelTask.begun + 1 } : BalanceCheckpoint).run settings
            moment b.cancelTask.begun (some trader) bounded) := ran_run settings (some trader) bounded
      exact h.quiet (.inl (hran.fired.2.trans htimer)) hran.fired.1
  | schedule =>
    show Timed hour settings.zone _ (done ++ (fired (b.schedule settings moment).2).map (moment, ·))
      (b.schedule settings moment).1
    -- nothing fired before the one schedule of the run
    obtain ⟨hidle, hempty⟩ := h.unscheduled (honce rfl)
    unfold BalanceCheckpoint.schedule
    split
    · obtain ⟨t, delayMs, harm, -, hdaily, -⟩ :=
        arm_next b moment hsettings hhour (moment.nowMs - graceMs)
      rw [harm, Option.getD_some, hempty]
      exact timed_scheduled ⟨t, rfl, hdaily⟩
    · exact h.quiet (.inl rfl) rfl
  | fires =>
    show Timed hour settings.zone _ (done ++ (fired (b.fires settings moment).2).map (moment, ·)) (b.fires settings moment).1
    unfold BalanceCheckpoint.fires
    split
    · exact h.quiet (.inl rfl) rfl
    rename_i tMs hset
    -- the timer is armed for the least occurrence after the one fired and the grace
    obtain ⟨t, delayMs, harm, hafter, hdaily, hleast⟩ :=
      arm_next b moment hsettings hhour (max tMs (moment.nowMs - graceMs))
    rw [harm]
    dsimp only
    have hstarted : (({ b with timer := some (t * 1000) } : BalanceCheckpoint).startTask none).timer =
        some (t * 1000) := (cancelTask_frame { b with timer := some (t * 1000) }).2.2.2.1
    refine h.fires hset hstarted ⟨t, rfl, hdaily⟩ fun next => ⟨by dsimp only; omega, ?_⟩
    intro s hs hfirst hlater
    dsimp only at hfirst hlater ⊢
    -- an occurrence in between would have been armed in its place
    by_contra hsoon
    have hbefore := hleast s hs (by omega)
    omega
  | stop => exact h.quiet (.inr (cancelTask_frame { b with stopped := true, timer := none }).2.2.2.1) rfl
  | cancel id => exact h.quiet (.inl (cancel_frame b id).2.2.2.1) rfl
  | wakes id reply =>
    show Timed hour settings.zone _ (done ++ (fired (b.wakes settings moment id reply).2).map (moment, ·))
      (b.wakes settings moment id reply).1
    rcases ran_wakes settings reply with hnothing | ⟨-, hran⟩ | ⟨-, hquiet, htold, -⟩
    · rw [hnothing]
      exact h.quiet (.inl rfl) rfl
    · exact h.quiet (.inl hran.fired.2) hran.fired.1
    · rw [htold]
      exact h.quiet (.inl hquiet.timer) rfl

/-- **The timer passes nothing over that it could fire for.** In a run that schedules the timer once, as
connecting does, it fires for occurrences of the hour one after another, never for one twice; an
occurrence it passes over was past its grace when the firing before armed the timer anew. -/
theorem timer_fires_in_order (settings : Settings) (hour : ℤ) (hhour : 0 ≤ hour ∧ hour ≤ 23)
    (hsettings : settings.hour = some hour) (inputs : List (Moment × Action))
    (honce : inputs.Pairwise fun input later => input.2 = .schedule → later.2 ≠ .schedule) :
    let done := firings settings {} inputs
    done.map Prod.snd = fired ((BalanceCheckpoint.machine settings).told {} inputs) ∧
      (∀ firing ∈ done, Occurrence hour settings.zone firing.2) ∧
      done.IsChain (Follows hour settings.zone) := by
  suffices Timed hour settings.zone inputs (firings settings {} inputs)
      ((BalanceCheckpoint.machine settings).after {} inputs) from
    ⟨firings_told settings {} inputs, this.occurs, this.chain⟩
  induction inputs using List.reverseRecOn with
  | nil =>
    exact ⟨List.IsChain.nil, fun tMs htMs => (by cases htMs), fun tMs htMs => (by cases htMs),
      fun _ => ⟨rfl, rfl⟩⟩
  | append_singleton inputs input ih =>
    obtain ⟨hearlier, -, hlast⟩ := List.pairwise_append.mp honce
    have htimed := ih hearlier
    obtain ⟨moment, action⟩ := input
    rw [firings_append, Machine.after_append]
    refine htimed.act hsettings hhour action fun hschedule other hother hagain => ?_
    exact hlast other hother (moment, action) (List.mem_singleton_self _) hagain hschedule

/-- The timer fires a minute late after the first midnight, and again after the second. -/
theorem timer_fires_in_order_twice :
    let done := firings midnight {} [(⟨40000, true⟩, .schedule), (⟨86460000, true⟩, .fires),
      (⟨172830000, true⟩, .fires)]
    done = [(⟨86460000, true⟩, 86400000), (⟨172830000, true⟩, 172800000)] ∧
      done.map Prod.snd = fired ((BalanceCheckpoint.machine midnight).told {} [(⟨40000, true⟩, .schedule),
        (⟨86460000, true⟩, .fires), (⟨172830000, true⟩, .fires)]) ∧
      (∀ firing ∈ done, Occurrence 0 utc firing.2) ∧ done.IsChain (Follows 0 utc) :=
  ⟨by decide, timer_fires_in_order midnight 0 (by decide) rfl _ (by decide)⟩

end BalanceHistory

end NautilusCtrader
