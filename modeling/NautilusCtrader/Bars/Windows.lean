import NautilusCtrader.Bars.Paging

/-!
# The windows a paged read asks for

The windows of one read end ever earlier. Each starts no later than it ends as long as the loop stays
above the start of the read. It passes below where a page's oldest bar opens less than a period after
that start (`Strands`): what the page reached is then clipped to the last boundary of its window, and
the loop goes on for the bar that was to open at the start.
-/

namespace NautilusCtrader

open Common

namespace Bars

namespace Paging

variable (paging : Paging)

/-- The request for the page whose window ends at `toSecs`. -/
def windowRequest (toSecs : ℤ) : ProtoOAGetTrendbarsReq where
  ctidTraderAccountId := paging.accountId
  symbolId := paging.symbolId
  period := paging.period
  fromTimestamp := paging.fromSecs toSecs * 1000
  toTimestamp := toSecs * 1000
  count := paging.pageSize + 2

/-- The requests the loop of `_page_trendbars` sends. -/
def requests (answer : ℕ → ProtoOAGetTrendbarsReq → ProtoOAGetTrendbarsRes) :
    ℕ → ℕ → PagingState → List ProtoOAGetTrendbarsReq
  | 0, _, _ => []
  | fuel + 1, number, s =>
    let asked := paging.windowRequest s.toSecs
    let page := (answer number asked).trendbar.map rawBar
    let s := paging.turn s page
    asked :: if paging.stops page s then [] else requests answer fuel (number + 1) s

/-- Every window starts no later than it ends, and each ends before the one asked for before it. -/
def WellFormed (requests : List ProtoOAGetTrendbarsReq) : Prop :=
  (∀ asked ∈ requests, asked.fromTimestamp ≤ asked.toTimestamp) ∧
    requests.Pairwise fun earlier later => later.toTimestamp < earlier.toTimestamp

/-- A bar that opens less than a period after the start, at the end of a window the loop can reach: it
is not among the bars of the range's last period, unless the range is shorter than one; and the bars
from it on do not fill the limit. -/
structure Strands (history : BarHistory paging.period) (start : ℤ) (bar : RawBar) : Prop where
  listed : bar ∈ history.bars
  after : start < bar.boundarySecs
  within : bar.boundarySecs < start + periodSecs paging.period
  le_end : bar.boundarySecs ≤ paging.endSecs
  reached : bar.boundarySecs + periodSecs paging.period ≤ paging.endSecs ∨
    paging.endSecs < start + periodSecs paging.period
  unlimited : ∀ limit, paging.limit = some limit →
    ((paging.availableFrom history bar.boundarySecs).filter paging.closed).length < limit

variable {paging : Paging} {history : BarHistory paging.period} {start : ℤ}

/-! ## Where no bar strands the loop -/

/-- Where the loop stands before a page while its windows are well formed. -/
structure Above (history : BarHistory paging.period) (start : ℤ) (s : PagingState) : Prop where
  served : paging.Served history s
  htop : s.toSecs ≤ s.historyStart
  start_le : start ≤ s.toSecs
  to_end : s.toSecs = paging.endSecs ∨ s.toSecs + periodSecs paging.period ≤ paging.endSecs

/-- What a page after which the loop goes on did not do. -/
theorem not_stops {page : List RawBar} {s : PagingState} (h : paging.stops page s = false) :
    paging.limit.any (· ≤ paging.closedCount s.bars) = false ∧ paging.runsOut page s = false := by
  rw [stops, Bool.or_eq_false_iff, Bool.or_eq_false_iff, Bool.or_eq_false_iff] at h
  exact ⟨h.1.1.2, h.1.2⟩

/-- A page of a loop that goes on moves down, and stays above the start. -/
theorem Above.turn (hstart : paging.startSecs = some start)
    (hnone : ∀ bar, ¬ paging.Strands history start bar) {s : PagingState}
    (h : Above history start s) {page : List RawBar}
    (hpage : PageOf history.bars (paging.fromSecs s.toSecs) s.toSecs page)
    (hgoes : paging.stops page (paging.turn s page) = false) :
    Above history start (paging.turn s page) ∧ (paging.turn s page).toSecs < s.toSecs := by
  obtain ⟨hlimit, hon⟩ := not_stops hgoes
  have hturn := h.served.turn h.htop hpage
  obtain ⟨htop, hless⟩ := turn_lower h.htop hpage hon
  have hperiod := periodSecs_pos paging.period
  have hspan : periodSecs paging.period ≤ paging.span := by
    have hone : (1 : ℤ) ≤ paging.pageSize := by exact_mod_cast paging.pageSize_pos
    unfold span
    nlinarith
  have hend := h.to_end
  have habove := h.start_le
  suffices hto : start ≤ (paging.turn s page).toSecs ∧
      (paging.turn s page).toSecs + periodSecs paging.period ≤ paging.endSecs from
    ⟨⟨hturn, htop, hto.1, .inr hto.2⟩, hless⟩
  unfold runsOut at hon
  rw [hstart] at hon
  dsimp only at hon
  rcases hpage with ⟨rfl, -⟩ | ⟨oldest, -, hmem, htopOldest, holdest, -⟩
  · -- An empty page that ends at the start ends the loop.
    have hto : (paging.turn s []).toSecs = max start (s.toSecs - paging.span) := by
      rw [Paging.turn, reached, fromSecs, hstart]
      rfl
    have hempty : oldestOf [] = none := rfl
    rw [hempty, Option.all_none, Bool.and_true, decide_eq_false_iff_not] at hon
    omega
  · have hto : (paging.turn s page).toSecs =
        min oldest.boundarySecs (s.toSecs - periodSecs paging.period) := by
      rw [Paging.turn, Paging.reached, holdest]
    -- a page with bars goes on from its oldest
    have hstartOf : (paging.turn s page).historyStart = oldest.boundarySecs := by
      have hle := htopOldest.trans h.htop
      rw [Paging.turn, holdest]
      exact min_eq_right hle
    rw [holdest, Option.all_some, Bool.and_eq_false_iff, decide_eq_false_iff_not,
      decide_eq_false_iff_not] at hon
    by_cases hbelow : (paging.turn s page).toSecs < start
    · -- else the oldest bar would be one the loop strands at
      exfalso
      refine hnone oldest ⟨hmem, by omega, by omega, by omega, by omega, fun limit hsome => ?_⟩
      rw [hsome, Option.any_some, decide_eq_false_iff_not, hturn.closedCount_eq, hturn.ascending_eq,
        hstartOf] at hlimit
      omega
    · omega

/-- From above the start the loop asks for well-formed windows, each below where it stood. -/
theorem requests_wellFormed (hstart : paging.startSecs = some start)
    (hnone : ∀ bar, ¬ paging.Strands history start bar)
    {answer : ℕ → ProtoOAGetTrendbarsReq → ProtoOAGetTrendbarsRes}
    (hserves : ServesAll history answer) {fuel number : ℕ} {s : PagingState}
    (h : Above history start s) :
    WellFormed (paging.requests answer fuel number s) ∧
      ∀ asked ∈ paging.requests answer fuel number s, asked.toTimestamp ≤ s.toSecs * 1000 := by
  -- on the pages left; every turn moves down and stays above the start
  induction fuel generalizing number s with
  | zero =>
    exact ⟨⟨fun _ hin => absurd hin List.not_mem_nil, .nil⟩,
      fun _ hin => absurd hin List.not_mem_nil⟩
  | succ fuel ih =>
    have hpage : PageOf history.bars (paging.fromSecs s.toSecs) s.toSecs
        ((answer number (paging.windowRequest s.toSecs)).trendbar.map rawBar) :=
      pageOf_serves (hserves number _) rfl rfl
    have hwindow : (paging.windowRequest s.toSecs).fromTimestamp ≤
        (paging.windowRequest s.toSecs).toTimestamp := by
      have habove := h.start_le
      have hspan := paging.span_pos
      unfold windowRequest fromSecs
      rw [hstart]
      dsimp only
      omega
    unfold requests
    dsimp only
    generalize (answer number (paging.windowRequest s.toSecs)).trendbar.map rawBar = page at hpage ⊢
    by_cases hstops : paging.stops page (paging.turn s page) = true
    · rw [if_pos hstops]
      refine ⟨⟨fun asked hasked => ?_, List.pairwise_singleton _ _⟩, fun asked hasked => ?_⟩
      · rw [List.mem_singleton.mp hasked]
        exact hwindow
      · rw [List.mem_singleton.mp hasked]
        exact le_refl _
    · rw [if_neg hstops]
      obtain ⟨habove, hless⟩ := h.turn hstart hnone hpage (eq_false_of_ne_true hstops)
      obtain ⟨⟨hwell, hpairwise⟩, hbelow⟩ := @ih (number + 1) _ habove
      have hlater : ∀ asked ∈ paging.requests answer fuel (number + 1) (paging.turn s page),
          asked.toTimestamp < (paging.windowRequest s.toSecs).toTimestamp := by
        intro asked hasked
        have hle := hbelow asked hasked
        have hto : (paging.windowRequest s.toSecs).toTimestamp = s.toSecs * 1000 := rfl
        omega
      refine ⟨⟨fun asked hasked => ?_, List.pairwise_cons.mpr ⟨hlater, hpairwise⟩⟩,
        fun asked hasked => ?_⟩
      · rcases List.mem_cons.mp hasked with rfl | hrest
        · exact hwindow
        · exact hwell asked hrest
      · rcases List.mem_cons.mp hasked with rfl | hrest
        · exact le_refl _
        · exact (hlater asked hrest).le

/-! ## A venue that strands the loop

It cuts its pages at the bar, as long as their windows reach it. -/

/-- The trendbar that states a bar that opens on a whole minute. -/
def trendbarOf (bar : RawBar) : ProtoOATrendbar where
  utcTimestampInMinutes := bar.boundarySecs / 60
  low := bar.low
  deltaOpen := bar.deltaOpen
  deltaHigh := bar.deltaHigh
  deltaClose := bar.deltaClose
  volume := bar.volume

/-- The venue states a bar's time in minutes. -/
def OnMinutes {period : ProtoOATrendbarPeriod} (history : BarHistory period) : Prop :=
  ∀ bar ∈ history.bars, 60 ∣ bar.boundarySecs

/-- The bars of a history that open at or before a window's end. -/
def upTo {period : ProtoOATrendbarPeriod} (history : BarHistory period)
    (asked : ProtoOAGetTrendbarsReq) : List RawBar :=
  history.bars.filter fun bar => bar.boundarySecs * 1000 ≤ asked.toTimestamp

/-- A venue that cuts every page at `boundary`, unless the window ends before it. -/
def cutsAt {period : ProtoOATrendbarPeriod} (history : BarHistory period) (boundary : ℤ) (_ : ℕ)
    (asked : ProtoOAGetTrendbarsReq) : ProtoOAGetTrendbarsRes where
  trendbar :=
    let newer := (upTo history asked).filter fun bar => boundary ≤ bar.boundarySecs
    (if newer = [] then upTo history asked else newer).map trendbarOf
  hasMore := true

/-- Bars on whole minutes come back from the wire as they were. -/
theorem map_rawBar_trendbarOf {bars : List RawBar} (h : ∀ bar ∈ bars, 60 ∣ bar.boundarySecs) :
    (bars.map trendbarOf).map rawBar = bars := by
  rw [List.map_map]
  calc bars.map (rawBar ∘ trendbarOf)
      = bars.map fun bar => bar := by
        refine List.map_congr_left fun bar hbar => ?_
        calc rawBar (trendbarOf bar)
            = { bar with boundarySecs := bar.boundarySecs / 60 * 60 } := rfl
          _ = bar := by rw [Int.ediv_mul_cancel (h bar hbar)]
    _ = bars := List.map_id' bars

/-- The page that venue serves. -/
theorem rawBars_cutsAt {period : ProtoOATrendbarPeriod} {history : BarHistory period}
    (hminutes : OnMinutes history) (boundary : ℤ) (number : ℕ) (asked : ProtoOAGetTrendbarsReq) :
    ((cutsAt history boundary number asked).trendbar.map rawBar) =
      if (upTo history asked).filter (fun bar => boundary ≤ bar.boundarySecs) = [] then
        upTo history asked
      else (upTo history asked).filter fun bar => boundary ≤ bar.boundarySecs := by
  have hlisted : ∀ bar ∈ upTo history asked, 60 ∣ bar.boundarySecs :=
    fun bar hbar => hminutes bar (List.mem_filter.mp hbar).1
  unfold cutsAt
  dsimp only
  split
  · exact map_rawBar_trendbarOf hlisted
  · exact map_rawBar_trendbarOf fun bar hbar => hlisted bar (List.mem_filter.mp hbar).1

/-- A venue that cuts its pages at a boundary serves the history. -/
theorem cutsAt_serves {period : ProtoOATrendbarPeriod} {history : BarHistory period}
    (hminutes : OnMinutes history) (boundary : ℤ) :
    ServesAll history (cutsAt history boundary) := by
  intro number asked
  rw [rawBars_cutsAt hminutes]
  have hupTo (bar : RawBar) : bar ∈ upTo history asked ↔
      bar ∈ history.bars ∧ bar.boundarySecs * 1000 ≤ asked.toTimestamp := by
    rw [upTo, List.mem_filter, decide_eq_true_eq]
  split
  · by_cases hempty : upTo history asked = []
    · refine .inl ⟨hempty, fun bar hbar hin => ?_⟩
      have hmem := (hupTo bar).mpr ⟨hbar, hin.2⟩
      rw [hempty] at hmem
      exact absurd hmem List.not_mem_nil
    · obtain ⟨oldest, hmem, -, hleast⟩ := exists_oldest hempty
      refine .inr ⟨hempty, oldest.boundarySecs, fun bar => ?_⟩
      rw [hupTo]
      constructor
      · rintro ⟨hbar, htop⟩
        exact ⟨hbar, hleast bar ((hupTo bar).mpr ⟨hbar, htop⟩), htop⟩
      · rintro ⟨hbar, -, htop⟩
        exact ⟨hbar, htop⟩
  · rename_i hsome
    refine .inr ⟨hsome, boundary, fun bar => ?_⟩
    rw [List.mem_filter, hupTo, decide_eq_true_eq]
    tauto

/-- A page that window ends at or after the bar is cut at it. -/
theorem oldestOf_cutsAt (paging : Paging) {history : BarHistory paging.period}
    (hminutes : OnMinutes history) {bar : RawBar} (hbar : bar ∈ history.bars) {toSecs : ℤ}
    (hle : bar.boundarySecs ≤ toSecs) (number : ℕ) :
    oldestOf ((cutsAt history bar.boundarySecs number (paging.windowRequest toSecs)).trendbar.map
      rawBar) = some bar.boundarySecs := by
  have htop : bar.boundarySecs * 1000 ≤ (paging.windowRequest toSecs).toTimestamp := by
    have hto : (paging.windowRequest toSecs).toTimestamp = toSecs * 1000 := rfl
    omega
  have hmem : bar ∈ (upTo history (paging.windowRequest toSecs)).filter
      fun other => bar.boundarySecs ≤ other.boundarySecs := by
    rw [List.mem_filter, upTo, List.mem_filter]
    exact ⟨⟨hbar, decide_eq_true htop⟩, decide_eq_true (le_refl _)⟩
  rw [rawBars_cutsAt hminutes, if_neg (List.ne_nil_of_mem hmem)]
  refine List.min?_eq_some_iff.mpr ⟨List.mem_map_of_mem hmem, fun boundary hboundary => ?_⟩
  obtain ⟨other, hother, rfl⟩ := List.mem_map.mp hboundary
  exact of_decide_eq_true (List.mem_filter.mp hother).2

/-- A loop that goes on has asked for this window first. -/
theorem requests_of_goes (paging : Paging)
    (answer : ℕ → ProtoOAGetTrendbarsReq → ProtoOAGetTrendbarsRes) (fuel number : ℕ) (s : PagingState)
    (h : paging.stops ((answer number (paging.windowRequest s.toSecs)).trendbar.map rawBar)
      (paging.turn s ((answer number (paging.windowRequest s.toSecs)).trendbar.map rawBar)) = false) :
    paging.requests answer (fuel + 1) number s = paging.windowRequest s.toSecs ::
      paging.requests answer fuel (number + 1)
        (paging.turn s ((answer number (paging.windowRequest s.toSecs)).trendbar.map rawBar)) := by
  rw [requests, if_neg (Bool.eq_false_iff.mp h)]

/-- The loop goes on after a page cut at the bar, from the bar or from a period before its window's
end. -/
theorem Strands.turn (hstart : paging.startSecs = some start) (hgap : 0 < paging.maxGapDays)
    (hminutes : OnMinutes history) {bar : RawBar} (h : paging.Strands history start bar)
    {s : PagingState} (hserved : paging.Served history s) (htop : s.toSecs ≤ s.historyStart)
    (hle : bar.boundarySecs ≤ s.toSecs) (fuel number : ℕ) :
    ∃ s', paging.Served history s' ∧ s'.toSecs ≤ s'.historyStart ∧
      s'.toSecs = min bar.boundarySecs (s.toSecs - periodSecs paging.period) ∧
      paging.requests (cutsAt history bar.boundarySecs) (fuel + 1) number s =
        paging.windowRequest s.toSecs ::
          paging.requests (cutsAt history bar.boundarySecs) fuel (number + 1) s' := by
  have holdest := oldestOf_cutsAt paging hminutes h.listed hle number
  have hpage : PageOf history.bars (paging.fromSecs s.toSecs) s.toSecs
      ((cutsAt history bar.boundarySecs number (paging.windowRequest s.toSecs)).trendbar.map rawBar) :=
    pageOf_serves (cutsAt_serves hminutes bar.boundarySecs number _) rfl rfl
  have hgoes := requests_of_goes paging (cutsAt history bar.boundarySecs) fuel number s
  generalize (cutsAt history bar.boundarySecs number (paging.windowRequest s.toSecs)).trendbar.map
    rawBar = page at holdest hpage hgoes
  have hturn := hserved.turn htop hpage
  have hto : (paging.turn s page).toSecs =
      min bar.boundarySecs (s.toSecs - periodSecs paging.period) := by
    rw [Paging.turn, Paging.reached, holdest]
  have hstartOf : (paging.turn s page).historyStart = bar.boundarySecs := by
    rw [Paging.turn, holdest]
    exact min_eq_right (hle.trans htop)
  have hperiod := periodSecs_pos paging.period
  have hafter := h.after
  refine ⟨paging.turn s page, hturn, by omega, hto, hgoes ?_⟩
  -- none of the three reasons to stop holds: the limit, the start, the gap
  have hlimit : paging.limit.any (· ≤ paging.closedCount (paging.turn s page).bars) = false := by
    cases hsome : paging.limit with
    | none => rfl
    | some limit =>
      have hfew := h.unlimited limit hsome
      rw [Option.any_some, decide_eq_false_iff_not, hturn.closedCount_eq, hturn.ascending_eq, hstartOf]
      omega
  have hon : paging.runsOut page (paging.turn s page) = false := by
    unfold runsOut
    rw [hstart]
    dsimp only
    rw [holdest, Option.all_some, Bool.and_eq_false_iff]
    exact .inr (decide_eq_false (by omega))
  have hnear : ¬ paging.maxGapDays * 86400 < ((paging.turn s page).historyStart -
      ((paging.turn s page).toSecs + periodSecs paging.period) : ℤ) := by
    have hzero : (paging.turn s page).historyStart -
        ((paging.turn s page).toSecs + periodSecs paging.period) ≤ 0 := by omega
    have hcast : (((paging.turn s page).historyStart -
        ((paging.turn s page).toSecs + periodSecs paging.period) : ℤ) : ℚ) ≤ 0 := by
      exact_mod_cast hzero
    linarith
  rw [stops, hstart, hlimit, hon, decide_eq_false hnear]
  rfl

/-- The windows of a read with a start are well formed, whatever its venue cuts, just if no bar strands
the loop. -/
theorem windows_wellFormed_iff (paging : Paging) (history : BarHistory paging.period) (start : ℤ)
    (hstart : paging.startSecs = some start) (hend : start < paging.endSecs)
    (hgap : 0 < paging.maxGapDays) (hminutes : OnMinutes history) :
    (∀ answer, ServesAll history answer → ∀ fuel,
        WellFormed (paging.requests answer fuel 0 paging.initial)) ↔
      ∀ bar, ¬ paging.Strands history start bar := by
  constructor
  · intro hwell bar h
    have hcut := hwell _ (cutsAt_serves hminutes bar.boundarySecs) 3
    have hinitial : paging.initial.toSecs = paging.endSecs := rfl
    have hmalformed (s : PagingState) (hlow : s.toSecs < start) (fuel number : ℕ) :
        ∃ asked ∈ paging.requests (cutsAt history bar.boundarySecs) (fuel + 1) number s,
          ¬ asked.fromTimestamp ≤ asked.toTimestamp := by
      refine ⟨paging.windowRequest s.toSecs, List.mem_cons_self, ?_⟩
      have hfrom : (paging.windowRequest s.toSecs).fromTimestamp =
          max start (s.toSecs - paging.span) * 1000 := by
        unfold windowRequest fromSecs
        rw [hstart]
      have hto : (paging.windowRequest s.toSecs).toTimestamp = s.toSecs * 1000 := rfl
      omega
    have hafter := h.after
    have hwithin := h.within
    have hle := h.le_end
    obtain ⟨first, hserved, htop, hto, hasked⟩ :=
      h.turn hstart hgap hminutes (served_initial history) (le_refl _) hle 2 0
    rw [hasked] at hcut
    rcases h.reached with hinner | hshort
    · -- The first page ends at the bar, so the next one is of it alone.
      obtain ⟨second, -, -, hto', hasked'⟩ :=
        h.turn hstart hgap hminutes hserved htop (by omega) 1 1
      obtain ⟨asked, hin, hnot⟩ := hmalformed second (by omega) 0 2
      rw [hasked'] at hcut
      exact hnot (hcut.1 asked (List.mem_cons_of_mem _ (List.mem_cons_of_mem _ hin)))
    · obtain ⟨asked, hin, hnot⟩ := hmalformed first (by omega) 1 1
      exact hnot (hcut.1 asked (List.mem_cons_of_mem _ hin))
  · intro hnone answer hserves fuel
    exact (requests_wellFormed hstart hnone hserves
      ⟨served_initial history, le_refl _, hend.le, .inl rfl⟩).1

/-! ## A history that begins after the start

The one bar opens 19 seconds after the start of the read, which lasts two minutes. -/

def oneBar : BarHistory .m1 where
  bars := [rawBar (trendbarAt 1)]
  spaced := List.pairwise_singleton _ _

def sinceForming : Paging where
  accountId := 1
  symbolId := 1
  period := .m1
  startSecs := some 41
  endSecs := 120
  limit := none
  closedSecs := 120
  pageSize := 500
  maxGapDays := 7
  pageSize_pos := by decide

/-- A read that starts before the bar's minute, at a whole one. -/
def fromMinute : Paging := { sinceForming with startSecs := some 0 }

/-- The one bar is on a whole minute. -/
theorem oneBar_onMinutes : OnMinutes oneBar := by
  intro bar hbar
  rw [List.mem_singleton.mp hbar]
  decide

/-- No window is empty just if no bar strands the loop at the start. -/
theorem fromMinute_wellFormed : (∀ answer, ServesAll oneBar answer → ∀ fuel,
      WellFormed (fromMinute.requests answer fuel 0 fromMinute.initial)) ↔
    ∀ bar, ¬ fromMinute.Strands oneBar 0 bar :=
  windows_wellFormed_iff fromMinute oneBar 0 rfl (by decide) (by decide +kernel) oneBar_onMinutes

/-- The venue serves the one bar for its own window too, and the loop then asks for one that ends 41
seconds before it starts. -/
theorem backwards_window : ¬ ∀ (paging : Paging) (history : BarHistory paging.period) (start : ℤ),
    paging.startSecs = some start → start < paging.endSecs → 0 < paging.maxGapDays →
    ∀ answer, ServesAll history answer → ∀ fuel,
      WellFormed (paging.requests answer fuel 0 paging.initial) := by
  intro hclaim
  have hserves : ServesAll oneBar (cutsAt oneBar 60) := cutsAt_serves oneBar_onMinutes 60
  have hwell := hclaim sinceForming oneBar 41 rfl (by decide) (by decide +kernel) _ hserves 3
  have hasked : sinceForming.requests (cutsAt oneBar 60) 3 0 sinceForming.initial =
      [sinceForming.windowRequest 120, sinceForming.windowRequest 60,
        sinceForming.windowRequest 0] := by decide +kernel
  rw [hasked] at hwell
  exact absurd (hwell.1 (sinceForming.windowRequest 0) (by simp)) (by decide +kernel)

end Paging

end Bars

end NautilusCtrader
