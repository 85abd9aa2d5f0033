import Mathlib.Tactic.Linarith
import NautilusCtrader.Common.Dict
import NautilusCtrader.Bars.BarCloser

/-!
# Paging back through the bar history

`_page_trendbars` asks for windows of bars from the end of a request backwards. The venue counts a
page's bars back from the window's end, cuts it where it likes and may reach below the window's start;
only an empty page says something about the window. The loop runs on fuel, and enough of it is shown to
be there. The requests of one read are numbered, as a venue may answer the same one differently later.
-/

namespace NautilusCtrader

open Common

namespace Bars

/-! ## Messages -/

/-- The periods `PERIOD_SECS` knows. -/
inductive ProtoOATrendbarPeriod
  | m1 | m2 | m3 | m4 | m5 | m10 | m15 | m30 | h1 | h4 | h12 | d1
deriving DecidableEq, Repr

/-- `PERIOD_SECS`. -/
def periodSecs : ProtoOATrendbarPeriod → ℤ
  | .m1 => 60
  | .m2 => 120
  | .m3 => 180
  | .m4 => 240
  | .m5 => 300
  | .m10 => 600
  | .m15 => 900
  | .m30 => 1800
  | .h1 => 3600
  | .h4 => 14400
  | .h12 => 43200
  | .d1 => 86400

/-- A period is not empty. -/
theorem periodSecs_pos (period : ProtoOATrendbarPeriod) : 0 < periodSecs period := by
  cases period <;> decide

structure ProtoOATrendbar where
  utcTimestampInMinutes : ℤ
  low : ℤ
  deltaOpen : ℤ
  deltaHigh : ℤ
  deltaClose : ℤ
  volume : ℤ
deriving DecidableEq, Repr

structure ProtoOAGetTrendbarsReq where
  ctidTraderAccountId : ℤ
  symbolId : ℤ
  period : ProtoOATrendbarPeriod
  fromTimestamp : ℤ
  toTimestamp : ℤ
  count : ℕ
deriving DecidableEq, Repr

structure ProtoOAGetTrendbarsRes where
  trendbar : List ProtoOATrendbar
  hasMore : Bool
deriving DecidableEq, Repr

/-- `_raw_bar`: a trendbar in the closer's own units. -/
def rawBar (trendbar : ProtoOATrendbar) : RawBar where
  boundarySecs := trendbar.utcTimestampInMinutes * 60
  low := trendbar.low
  deltaOpen := trendbar.deltaOpen
  deltaHigh := trendbar.deltaHigh
  deltaClose := trendbar.deltaClose
  volume := trendbar.volume

/-! ## The loop -/

/-- What one call of `_page_trendbars` is after, with the page size and the maximum gap configured for
its symbol. -/
structure Paging where
  accountId : ℤ
  symbolId : ℤ
  period : ProtoOATrendbarPeriod
  startSecs : Option ℤ
  endSecs : ℤ
  limit : Option ℕ
  closedSecs : ℤ
  pageSize : ℕ
  maxGapDays : ℚ
  pageSize_pos : 0 < pageSize

/-- Where the loop stands before a page. -/
structure PagingState where
  bars : Dict ℤ RawBar
  toSecs : ℤ
  historyStart : ℤ

namespace Paging

variable (paging : Paging)

/-- The seconds one page's window covers. -/
def span : ℤ := paging.pageSize * periodSecs paging.period

/-- `_get_trendbars`: the window's bars, and whether the venue served fewer than the window holds. -/
def getTrendbars (answer : ProtoOAGetTrendbarsReq → ProtoOAGetTrendbarsRes) (fromSecs toSecs : ℤ)
    (count : ℕ) : List RawBar × Bool :=
  let response := answer {
    ctidTraderAccountId := paging.accountId
    symbolId := paging.symbolId
    period := paging.period
    fromTimestamp := fromSecs * 1000
    toTimestamp := toSecs * 1000
    count }
  let bars := response.trendbar.map rawBar
  (bars, response.hasMore || count ≤ bars.length)

/-- Where the window that ends at `toSecs` starts. -/
def fromSecs (toSecs : ℤ) : ℤ :=
  match paging.startSecs with
  | none => toSecs - paging.span
  | some start => max start (toSecs - paging.span)

/-- Whether a bar opens where the request asks for bars. -/
def asks (bar : RawBar) : Bool :=
  bar.boundarySecs < paging.endSecs && paging.startSecs.all (· ≤ bar.boundarySecs)

/-- Whether a bar is closed by `closedSecs`. -/
def closed (bar : RawBar) : Bool := bar.boundarySecs + periodSecs paging.period ≤ paging.closedSecs

/-- A page's bars that are asked for, each boundary's first one kept. -/
def keepPage (bars : Dict ℤ RawBar) (page : List RawBar) : Dict ℤ RawBar :=
  page.foldl (fun bars bar => if paging.asks bar then bars.setDefault bar.boundarySecs bar else bars)
    bars

/-- The oldest boundary of a page. -/
def oldestOf (page : List RawBar) : Option ℤ := (page.map RawBar.boundarySecs).min?

/-- How far back a page reached; never above the window's own last boundary. -/
def reached (toSecs : ℤ) (page : List RawBar) : ℤ :=
  match oldestOf page with
  | none => paging.fromSecs toSecs
  | some oldest => min oldest (toSecs - periodSecs paging.period)

/-- The state after a page. -/
def turn (s : PagingState) (page : List RawBar) : PagingState where
  bars := paging.keepPage s.bars page
  toSecs := paging.reached s.toSecs page
  historyStart := (oldestOf page).elim s.historyStart (min s.historyStart)

/-- `_closed_count`. -/
def closedCount (bars : Dict ℤ RawBar) : ℕ :=
  (bars.keys.filter fun boundary => boundary + periodSecs paging.period ≤ paging.closedSecs).length

/-- Whether a page reached the start, or, without one, shows that history has run out. -/
def runsOut (page : List RawBar) (s : PagingState) : Bool :=
  match paging.startSecs with
  -- One cut short above the start leaves the bar at it unserved.
  | some start => s.toSecs ≤ start && (oldestOf page).all (· ≤ start)
  | none => page = []

/-- Whether the loop stops after a page that left it in `s`. -/
def stops (page : List RawBar) (s : PagingState) : Bool :=
  paging.startSecs.isNone && paging.limit.isNone ||
    paging.limit.any (· ≤ paging.closedCount s.bars) || paging.runsOut page s ||
    -- A bar opening just below what was reached may close above it.
    paging.maxGapDays * 86400 < (s.historyStart - (s.toSecs + periodSecs paging.period) : ℤ)

/-- The bars found, by boundary. -/
def ascending (bars : Dict ℤ RawBar) : List RawBar := (sortOn id bars.keys).filterMap bars.get?

/-- The loop of `_page_trendbars`. -/
def loop (request : ℕ → ProtoOAGetTrendbarsReq → ProtoOAGetTrendbarsRes) :
    ℕ → ℕ → PagingState → Option (List RawBar)
  | 0, _, _ => none
  | fuel + 1, number, s =>
    -- Two more than the page: for a bar repeated at the window's end, and for a short answer.
    let page := (paging.getTrendbars (request number) (paging.fromSecs s.toSecs) s.toSecs
      (paging.pageSize + 2)).1
    let s := paging.turn s page
    if paging.stops page s then some (ascending s.bars) else loop request fuel (number + 1) s

/-- Where the loop starts. -/
def initial : PagingState where
  bars := Dict.empty
  toSecs := paging.endSecs
  historyStart := paging.endSecs

/-- `_page_trendbars`: the bars opening from the start on and before the end, ascending. -/
def pageTrendbars (request : ℕ → ProtoOAGetTrendbarsReq → ProtoOAGetTrendbarsRes) (fuel : ℕ) :
    Option (List RawBar) :=
  paging.loop request fuel 0 paging.initial

end Paging

/-! ## The venue -/

/-- The bars a symbol's history holds, ascending and at least one period apart. -/
structure BarHistory (period : ProtoOATrendbarPeriod) where
  bars : List RawBar
  spaced : bars.Pairwise fun bar later =>
    bar.boundarySecs + periodSecs period ≤ later.boundarySecs

/-- An answer to a request: empty, but only if no bar opens in the window asked for; or the newest bars
opening at or before its end, back to some time `floor` that need not lie in the window. -/
def Serves (bars : List RawBar) (asked : ProtoOAGetTrendbarsReq) (page : List RawBar) : Prop :=
  page = [] ∧ (∀ bar ∈ bars, ¬ (asked.fromTimestamp ≤ bar.boundarySecs * 1000 ∧
      bar.boundarySecs * 1000 ≤ asked.toTimestamp)) ∨
    page ≠ [] ∧ ∃ floor, ∀ bar, bar ∈ page ↔
      bar ∈ bars ∧ floor ≤ bar.boundarySecs ∧ bar.boundarySecs * 1000 ≤ asked.toTimestamp

/-- The venue answers every request from one history. -/
def ServesAll {period : ProtoOATrendbarPeriod} (history : BarHistory period)
    (request : ℕ → ProtoOAGetTrendbarsReq → ProtoOAGetTrendbarsRes) : Prop :=
  ∀ number asked, Serves history.bars asked ((request number asked).trendbar.map rawBar)

/-! ## What one page says

A page is read off the history by its oldest bar: it holds every bar from that one to the end of its
window. An empty one leaves no bar in the window. -/

/-- Two elements of a list in which each stands in a relation to the later ones. -/
theorem related_of_mem {α : Type} {R : α → α → Prop} {xs : List α} (h : xs.Pairwise R) {x y : α}
    (hx : x ∈ xs) (hy : y ∈ xs) : x = y ∨ R x y ∨ R y x := by
  induction xs with
  | nil => exact absurd hx List.not_mem_nil
  | cons head tail ih =>
    obtain ⟨hhead, htail⟩ := List.pairwise_cons.mp h
    rcases List.mem_cons.mp hx with rfl | hx'
    · rcases List.mem_cons.mp hy with rfl | hy'
      · exact .inl rfl
      · exact .inr (.inl (hhead y hy'))
    · rcases List.mem_cons.mp hy with rfl | hy'
      · exact .inr (.inr (hhead x hx'))
      · exact ih htail hx' hy'

namespace BarHistory

variable {period : ProtoOATrendbarPeriod} {history : BarHistory period} {bar other : RawBar}

/-- Two bars of a history are a period apart. -/
theorem apart (hbar : bar ∈ history.bars) (hother : other ∈ history.bars)
    (h : bar.boundarySecs < other.boundarySecs) :
    bar.boundarySecs + periodSecs period ≤ other.boundarySecs := by
  have hpos := periodSecs_pos period
  rcases related_of_mem history.spaced hbar hother with rfl | hbefore | hafter
  · exact absurd h (lt_irrefl _)
  · exact hbefore
  · omega

/-- Bars of a history that share a boundary are one. -/
theorem boundary_inj (hbar : bar ∈ history.bars) (hother : other ∈ history.bars)
    (h : bar.boundarySecs = other.boundarySecs) : bar = other := by
  have hpos := periodSecs_pos period
  rcases related_of_mem history.spaced hbar hother with rfl | hbefore | hafter
  · rfl
  · omega
  · omega

end BarHistory

/-- A page of the window from `fromSecs` to `toSecs`. -/
inductive PageOf (bars : List RawBar) (fromSecs toSecs : ℤ) (page : List RawBar) : Prop
  | empty (hpage : page = []) (hnone : ∀ bar ∈ bars, bar.boundarySecs < fromSecs ∨
      toSecs < bar.boundarySecs)
  | served (oldest : RawBar) (hpage : page ≠ []) (hmem : oldest ∈ bars)
      (hoftop : oldest.boundarySecs ≤ toSecs)
      (hoftheold : Paging.oldestOf page = some oldest.boundarySecs)
      (hrun : ∀ bar, bar ∈ page ↔ bar ∈ bars ∧ oldest.boundarySecs ≤ bar.boundarySecs ∧
        bar.boundarySecs ≤ toSecs)

/-- A nonempty page has an oldest bar. -/
theorem exists_oldest {page : List RawBar} (h : page ≠ []) :
    ∃ oldest ∈ page, Paging.oldestOf page = some oldest.boundarySecs ∧
      ∀ bar ∈ page, oldest.boundarySecs ≤ bar.boundarySecs := by
  have hne : page.map RawBar.boundarySecs ≠ [] := fun hnil => h (List.map_eq_nil_iff.mp hnil)
  obtain ⟨least, hleast⟩ := Option.ne_none_iff_exists'.mp fun hnone =>
    hne (List.min?_eq_none_iff.mp hnone)
  obtain ⟨hmem, hle⟩ := List.min?_eq_some_iff.mp hleast
  obtain ⟨oldest, holdest, rfl⟩ := List.mem_map.mp hmem
  exact ⟨oldest, holdest, hleast, fun bar hbar => hle _ (List.mem_map_of_mem hbar)⟩

/-- A response that serves its request is a page of the window it asks for. -/
theorem pageOf_serves {bars page : List RawBar} {fromSecs toSecs : ℤ}
    {asked : ProtoOAGetTrendbarsReq} (h : Serves bars asked page)
    (hfrom : asked.fromTimestamp = fromSecs * 1000) (hto : asked.toTimestamp = toSecs * 1000) :
    PageOf bars fromSecs toSecs page := by
  rcases h with ⟨hpage, hnone⟩ | ⟨hpage, floor, hrun⟩
  · refine .empty hpage fun bar hbar => ?_
    have hout := hnone bar hbar
    omega
  · obtain ⟨oldest, hmem, holdest, hleast⟩ := exists_oldest hpage
    obtain ⟨hhistory, hfloor, htop⟩ := (hrun oldest).mp hmem
    refine .served oldest hpage hhistory (by omega) holdest fun bar => ?_
    rw [hrun bar]
    constructor
    · rintro ⟨hbar, hbarFloor, hbarTop⟩
      exact ⟨hbar, hleast bar ((hrun bar).mpr ⟨hbar, hbarFloor, hbarTop⟩), by omega⟩
    · rintro ⟨hbar, hbarOldest, hbarTop⟩
      exact ⟨hbar, by omega, by omega⟩

namespace Paging

variable {paging : Paging} {history : BarHistory paging.period}

/-- What is read of a response is a page of the window. -/
theorem pageOf_getTrendbars {request : ℕ → ProtoOAGetTrendbarsReq → ProtoOAGetTrendbarsRes}
    (h : ServesAll history request) (number : ℕ) (fromSecs toSecs : ℤ) (count : ℕ) :
    PageOf history.bars fromSecs toSecs
      (paging.getTrendbars (request number) fromSecs toSecs count).1 :=
  pageOf_serves (h number _) rfl rfl

/-! ## What is kept -/

/-- What the dictionary of bars holds: bars of the history, each under its boundary. -/
def Named (bars : List RawBar) (found : Dict ℤ RawBar) : Prop :=
  ∀ boundary bar, found.get? boundary = some bar → bar ∈ bars ∧ bar.boundarySecs = boundary

/-- A page adds its bars that are asked for, and nothing else. -/
theorem get?_keepPage {found : Dict ℤ RawBar} {page : List RawBar}
    (hnamed : Named history.bars found) (hpage : ∀ bar ∈ page, bar ∈ history.bars) (boundary : ℤ)
    (bar : RawBar) : (paging.keepPage found page).get? boundary = some bar ↔
      found.get? boundary = some bar ∨
        bar ∈ page ∧ paging.asks bar = true ∧ bar.boundarySecs = boundary := by
  induction page generalizing found with
  | nil =>
    constructor
    · exact .inl
    · rintro (h | ⟨h, -⟩)
      · exact h
      · exact absurd h List.not_mem_nil
  | cons head tail ih =>
    have htail : ∀ bar ∈ tail, bar ∈ history.bars := fun bar h => hpage bar (List.mem_cons_of_mem _ h)
    have hhead : head ∈ history.bars := hpage head List.mem_cons_self
    by_cases hasks : paging.asks head = true
    · have hcons : paging.keepPage found (head :: tail) =
          paging.keepPage (found.setDefault head.boundarySecs head) tail := by
        rw [keepPage, List.foldl_cons, if_pos hasks, ← keepPage]
      have hset (key : ℤ) (other : RawBar) :
          (found.setDefault head.boundarySecs head).get? key = some other ↔
            found.get? key = some other ∨ other = head ∧ head.boundarySecs = key := by
        rw [Dict.get?_setDefault]
        by_cases hkey : head.boundarySecs = key
        · rw [if_pos hkey]
          cases hheld : found.get? key with
          | none =>
            rw [Option.getD_none, Option.some.injEq]
            exact ⟨fun h => .inr ⟨h.symm, hkey⟩, fun h => by
              rcases h with h | ⟨h, -⟩
              · exact nomatch h
              · exact h.symm⟩
          | some held =>
            -- The bar held under a boundary is the history's, as is the page's.
            obtain ⟨hheldMem, hheldKey⟩ := hnamed key held hheld
            have hsame : held = head :=
              BarHistory.boundary_inj hheldMem hhead (hheldKey.trans hkey.symm)
            rw [Option.getD_some, Option.some.injEq]
            exact ⟨.inl, fun h => by
              rcases h with h | ⟨h, -⟩
              · exact h
              · exact hsame.trans h.symm⟩
        · rw [if_neg hkey]
          exact ⟨.inl, fun h => h.resolve_right fun hboth => hkey hboth.2⟩
      have hnamed' : Named history.bars (found.setDefault head.boundarySecs head) := by
        intro key other hget
        rcases (hset key other).mp hget with hheld | ⟨rfl, hkey⟩
        · exact hnamed key other hheld
        · exact ⟨hhead, hkey⟩
      rw [hcons, ih hnamed' htail, hset]
      constructor
      · rintro ((h | ⟨rfl, hkey⟩) | ⟨hmem, hboth⟩)
        · exact .inl h
        · exact .inr ⟨List.mem_cons_self, hasks, hkey⟩
        · exact .inr ⟨List.mem_cons_of_mem _ hmem, hboth⟩
      · rintro (h | ⟨hmem, hbarAsks, hkey⟩)
        · exact .inl (.inl h)
        · rcases List.mem_cons.mp hmem with rfl | hmem
          · exact .inl (.inr ⟨rfl, hkey⟩)
          · exact .inr ⟨hmem, hbarAsks, hkey⟩
    · have hcons : paging.keepPage found (head :: tail) = paging.keepPage found tail := by
        rw [keepPage, List.foldl_cons, if_neg hasks, ← keepPage]
      rw [hcons, ih hnamed htail]
      constructor
      · rintro (h | ⟨hmem, hboth⟩)
        · exact .inl h
        · exact .inr ⟨List.mem_cons_of_mem _ hmem, hboth⟩
      · rintro (h | ⟨hmem, hbarAsks, hkey⟩)
        · exact .inl h
        · rcases List.mem_cons.mp hmem with rfl | hmem
          · exact absurd hbarAsks hasks
          · exact .inr ⟨hmem, hbarAsks, hkey⟩

/-! ## The invariant

Everything asked for from the oldest bar served on is kept, and no bar lies between what was reached
and that bar. -/

/-- What holds before and after each page. -/
structure Served (history : BarHistory paging.period) (s : PagingState) : Prop where
  kept (boundary : ℤ) (bar : RawBar) : s.bars.get? boundary = some bar ↔
    bar ∈ history.bars ∧ paging.asks bar = true ∧ bar.boundarySecs = boundary ∧
      s.historyStart ≤ boundary
  below : ∀ bar ∈ history.bars, bar.boundarySecs < s.historyStart → bar.boundarySecs ≤ s.toSecs
  start_le : s.historyStart ≤ paging.endSecs

/-- A bar that is asked for begins before the end. -/
theorem asks_lt {bar : RawBar} (h : paging.asks bar = true) : bar.boundarySecs < paging.endSecs := by
  rw [asks, Bool.and_eq_true, decide_eq_true_eq] at h
  exact h.1

/-- Nothing has been read yet, and nothing above it is missing. -/
theorem served_initial (history : BarHistory paging.period) : paging.Served history paging.initial where
  kept boundary bar := by
    constructor
    · exact nofun
    · rintro ⟨-, hasks, rfl, hstart⟩
      exact absurd (paging.asks_lt hasks) (not_lt.mpr hstart)
  below bar _ h := h.le
  start_le := le_refl _

/-- A further page leaves no gap above what was read. -/
theorem Served.turn {s : PagingState} (h : paging.Served history s) (htop : s.toSecs ≤ s.historyStart)
    {page : List RawBar} (hpage : PageOf history.bars (paging.fromSecs s.toSecs) s.toSecs page) :
    paging.Served history (paging.turn s page) := by
  have hnamed : Named history.bars s.bars := fun boundary bar hget =>
    ⟨((h.kept boundary bar).mp hget).1, ((h.kept boundary bar).mp hget).2.2.1⟩
  rcases hpage with ⟨rfl, hnone⟩ | ⟨oldest, hne, hmem, htopOldest, holdest, hrun⟩
  · -- An empty page changes only how far back the loop is.
    refine ⟨h.kept, fun bar hbar hlt => ?_, h.start_le⟩
    have hle := h.below bar hbar hlt
    rcases hnone bar hbar with hless | hmore
    · exact hless.le
    · exact absurd hle (not_le.mpr hmore)
  · have hstart : (paging.turn s page).historyStart = oldest.boundarySecs := by
      have hle : oldest.boundarySecs ≤ s.historyStart := le_trans htopOldest htop
      rw [Paging.turn, holdest]
      exact min_eq_right hle
    have hto : (paging.turn s page).toSecs =
        min oldest.boundarySecs (s.toSecs - periodSecs paging.period) := by
      rw [Paging.turn, reached, holdest]
    refine ⟨fun boundary bar => ?_, fun bar hbar hlt => ?_, ?_⟩
    · have hkeep : (paging.turn s page).bars.get? boundary = some bar ↔ _ :=
        get?_keepPage hnamed (fun bar hbar => ((hrun bar).mp hbar).1) boundary bar
      rw [hkeep, h.kept, hstart, hrun]
      constructor
      · rintro (⟨hbar, hasks, hkey, hle⟩ | ⟨⟨hbar, hle, -⟩, hasks, hkey⟩)
        · exact ⟨hbar, hasks, hkey, by omega⟩
        · exact ⟨hbar, hasks, hkey, by omega⟩
      · rintro ⟨hbar, hasks, hkey, hle⟩
        by_cases hold : s.historyStart ≤ boundary
        · exact .inl ⟨hbar, hasks, hkey, hold⟩
        · have hbelow := h.below bar hbar (by omega)
          exact .inr ⟨⟨hbar, by omega, hbelow⟩, hasks, hkey⟩
    · rw [hstart] at hlt
      have hapart := BarHistory.apart hbar hmem hlt
      have hpos := periodSecs_pos paging.period
      rw [hto]
      omega
    · rw [hstart]
      have hend := h.start_le
      omega

/-! ## What is returned -/

/-- The bars asked for that the history has. -/
def available (paging : Paging) (history : BarHistory paging.period) : List RawBar :=
  history.bars.filter paging.asks

/-- The bars asked for from a boundary on. -/
def availableFrom (paging : Paging) (history : BarHistory paging.period) (boundary : ℤ) :
    List RawBar :=
  (paging.available history).filter fun bar => boundary ≤ bar.boundarySecs

/-- The bars there are ascend. -/
theorem sorted_availableFrom (history : BarHistory paging.period) (boundary : ℤ) :
    ((paging.availableFrom history boundary).map RawBar.boundarySecs).Pairwise (· < ·) := by
  have hpos := periodSecs_pos paging.period
  rw [List.pairwise_map]
  refine ((history.spaced.sublist List.filter_sublist).sublist List.filter_sublist).imp ?_
  intro bar later hspaced
  omega

/-- The bars there are from a boundary on are those of the history that are asked for. -/
theorem mem_availableFrom {boundary : ℤ} {bar : RawBar} :
    bar ∈ paging.availableFrom history boundary ↔
      bar ∈ history.bars ∧ paging.asks bar = true ∧ boundary ≤ bar.boundarySecs := by
  rw [availableFrom, available, List.mem_filter, List.mem_filter, decide_eq_true_eq, and_assoc]

/-- The keys of what is kept are the boundaries of the bars asked for from the oldest one served. -/
theorem Served.keys_perm {s : PagingState} (h : paging.Served history s) :
    s.bars.keys.Perm ((paging.availableFrom history s.historyStart).map RawBar.boundarySecs) := by
  have hnodup : ((paging.availableFrom history s.historyStart).map RawBar.boundarySecs).Nodup :=
    (sorted_availableFrom history s.historyStart).imp fun hlt => hlt.ne
  refine (List.perm_ext_iff_of_nodup s.bars.nodup hnodup).mpr fun boundary => ?_
  rw [List.mem_map, List.mem_map]
  constructor
  · rintro ⟨⟨key, bar⟩, hentry, rfl⟩
    obtain ⟨hbar, hasks, hkey, hle⟩ := (h.kept key bar).mp (Dict.get?_eq_some.mpr hentry)
    exact ⟨bar, mem_availableFrom.mpr ⟨hbar, hasks, by omega⟩, hkey⟩
  · rintro ⟨bar, hbar, rfl⟩
    obtain ⟨hmem, hasks, hle⟩ := mem_availableFrom.mp hbar
    exact ⟨(bar.boundarySecs, bar),
      Dict.get?_eq_some.mp ((h.kept _ bar).mpr ⟨hmem, hasks, rfl, hle⟩), rfl⟩

/-- The loop's answer lists what is kept in ascending order. -/
theorem Served.ascending_eq {s : PagingState} (h : paging.Served history s) :
    ascending s.bars = paging.availableFrom history s.historyStart := by
  have hsorted := sorted_availableFrom history s.historyStart
  have hkeys : sortOn id s.bars.keys =
      (paging.availableFrom history s.historyStart).map RawBar.boundarySecs := by
    have hsame : sortOn id s.bars.keys =
        sortOn id ((paging.availableFrom history s.historyStart).map RawBar.boundarySecs) :=
      sortOn_eq_of_perm h.keys_perm fun _ _ _ _ heq => heq
    rw [hsame]
    exact List.Pairwise.insertionSort_eq (hsorted.imp fun hlt => hlt.le)
  rw [ascending, hkeys, List.filterMap_map]
  calc (paging.availableFrom history s.historyStart).filterMap (s.bars.get? ∘ RawBar.boundarySecs)
      = (paging.availableFrom history s.historyStart).filterMap some := by
        refine List.filterMap_congr fun bar hbar => ?_
        obtain ⟨hmem, hasks, hle⟩ := mem_availableFrom.mp hbar
        exact (h.kept _ bar).mpr ⟨hmem, hasks, rfl, hle⟩
    _ = paging.availableFrom history s.historyStart := List.filterMap_some

/-- The closed bars that are counted are those read. -/
theorem Served.closedCount_eq {s : PagingState} (h : paging.Served history s) :
    paging.closedCount s.bars = ((ascending s.bars).filter paging.closed).length := by
  rw [closedCount, h.ascending_eq, (h.keys_perm.filter _).length_eq, List.filter_map,
    List.length_map]
  rfl

/-- The bars from a boundary on are the newest ones. -/
theorem availableFrom_suffix (history : BarHistory paging.period) (boundary : ℤ) :
    paging.availableFrom history boundary <:+ paging.available history := by
  have hsorted : (paging.available history).Pairwise fun bar later =>
      bar.boundarySecs + periodSecs paging.period ≤ later.boundarySecs :=
    history.spaced.sublist List.filter_sublist
  have hpos := periodSecs_pos paging.period
  rw [availableFrom]
  generalize paging.available history = bars at hsorted
  induction bars with
  | nil => exact List.suffix_refl _
  | cons bar bars ih =>
    obtain ⟨hbar, hbars⟩ := List.pairwise_cons.mp hsorted
    by_cases hle : boundary ≤ bar.boundarySecs
    · -- All later bars are from the boundary on too.
      have hall : (bar :: bars).filter (fun bar => boundary ≤ bar.boundarySecs) = bar :: bars := by
        refine List.filter_eq_self.mpr fun other hother => decide_eq_true ?_
        rcases List.mem_cons.mp hother with rfl | hother
        · exact hle
        · have hlater := hbar other hother
          omega
      simp only [hall, List.suffix_refl]
    · rw [List.filter_cons_of_neg (by rw [decide_eq_true_eq]; exact hle)]
      exact (ih hbars).trans (List.suffix_cons bar bars)

/-- No bar of the history is under way between two times. -/
def BarFree (history : BarHistory paging.period) (fromSecs toSecs : ℤ) : Prop :=
  ∀ bar ∈ history.bars,
    bar.boundarySecs + periodSecs paging.period ≤ fromSecs ∨ toSecs ≤ bar.boundarySecs

/-- The result lacks only bars below a stretch without a bar that is longer than the maximum gap. -/
def EndsAtGap (paging : Paging) (history : BarHistory paging.period) (result : List RawBar) : Prop :=
  ∃ fromSecs toSecs : ℤ, toSecs ≤ paging.endSecs ∧
    paging.maxGapDays * 86400 < (toSecs - fromSecs : ℤ) ∧ BarFree history fromSecs toSecs ∧
    result = paging.availableFrom history toSecs

/-- The result lacks only bars below a stretch as long as a page's window in which no bar opens. -/
def EndsAtWindow (paging : Paging) (history : BarHistory paging.period) (result : List RawBar) : Prop :=
  ∃ fromSecs toSecs : ℤ, toSecs ≤ paging.endSecs ∧ paging.span ≤ toSecs - fromSecs ∧
    (∀ bar ∈ history.bars, bar.boundarySecs < fromSecs ∨ toSecs ≤ bar.boundarySecs) ∧
    result = paging.availableFrom history toSecs

/-- What a read that was asked for a start or a limit returns. -/
structure Answered (paging : Paging) (history : BarHistory paging.period) (result : List RawBar) :
    Prop where
  newest : result <:+ paging.available history
  whole : paging.limit = none → result = paging.available history ∨ paging.EndsAtGap history result
  limited : ∀ limit, paging.limit = some limit →
    min limit ((paging.available history).filter paging.closed).length ≤
        (result.filter paging.closed).length ∨
      paging.EndsAtGap history result ∨
      paging.startSecs = none ∧ paging.EndsAtWindow history result

/-! ## Why the loop stops, and that it goes on downward -/

/-- Below all the bars there are, all of them are from there on. -/
theorem availableFrom_of_le {boundary : ℤ}
    (h : ∀ bar ∈ history.bars, paging.asks bar = true → boundary ≤ bar.boundarySecs) :
    paging.availableFrom history boundary = paging.available history := by
  refine List.filter_eq_self.mpr fun bar hbar => decide_eq_true ?_
  obtain ⟨hmem, hasks⟩ := List.mem_filter.mp hbar
  exact h bar hmem hasks

/-- A bar that is asked for is not before the start. -/
theorem asks_start {bar : RawBar} {start : ℤ} (hstart : paging.startSecs = some start)
    (h : paging.asks bar = true) : start ≤ bar.boundarySecs := by
  rw [asks, hstart, Bool.and_eq_true, Option.all_some, decide_eq_true_eq, decide_eq_true_eq] at h
  exact h.2

/-- A page that ran the history out left nothing asked for, or found a whole window empty. -/
theorem Served.runsOut {s : PagingState} (h : paging.Served history s)
    (htop : s.toSecs ≤ s.historyStart) {page : List RawBar}
    (hpage : PageOf history.bars (paging.fromSecs s.toSecs) s.toSecs page)
    (hturn : paging.Served history (paging.turn s page))
    (hout : paging.runsOut page (paging.turn s page) = true) :
    paging.availableFrom history (paging.turn s page).historyStart = paging.available history ∨
      paging.startSecs = none ∧
        paging.EndsAtWindow history (paging.availableFrom history (paging.turn s page).historyStart) := by
  unfold Paging.runsOut at hout
  cases hstart : paging.startSecs with
  | some start =>
    simp only [hstart, Bool.and_eq_true, decide_eq_true_eq] at hout
    obtain ⟨hreached, hall⟩ := hout
    refine .inl (availableFrom_of_le fun bar hbar hasks => ?_)
    have hfrom := asks_start hstart hasks
    by_contra hbelow
    have hle := hturn.below bar hbar (not_le.mp hbelow)
    -- Only a bar at the start itself could be left, and neither kind of page leaves it.
    rcases hpage with ⟨rfl, hnone⟩ | ⟨oldest, hne, hmem, htopOldest, holdest, hrun⟩
    · have hto : (paging.turn s []).toSecs = paging.fromSecs s.toSecs := rfl
      have hstartOf : (paging.turn s []).historyStart = s.historyStart := rfl
      have hmax : start ≤ paging.fromSecs s.toSecs := by
        rw [fromSecs, hstart]
        exact le_max_left _ _
      have hold := h.below bar hbar (by omega)
      rcases hnone bar hbar with hless | hmore
      · omega
      · omega
    · rw [holdest, Option.all_some, decide_eq_true_eq] at hall
      have hstartLe : (paging.turn s page).historyStart ≤ oldest.boundarySecs := by
        rw [Paging.turn, holdest]
        exact min_le_right _ _
      omega
  | none =>
    simp only [hstart, decide_eq_true_eq] at hout
    subst hout
    refine .inr ⟨rfl, paging.fromSecs s.toSecs, s.historyStart, h.start_le, ?_, ?_, rfl⟩
    · have hfrom : paging.fromSecs s.toSecs = s.toSecs - paging.span := by rw [fromSecs, hstart]
      omega
    · intro bar hbar
      rcases hpage with ⟨-, hnone⟩ | ⟨oldest, hne, -⟩
      · by_cases hlt : bar.boundarySecs < s.historyStart
        · have hle := h.below bar hbar hlt
          rcases hnone bar hbar with hless | hmore
          · exact .inl hless
          · omega
        · exact .inr (not_lt.mp hlt)
      · exact absurd rfl hne

/-- A page that leaves a longer stretch without a bar than the maximum gap ends at it. -/
theorem Served.endsAtGap {s : PagingState} (h : paging.Served history s)
    (hgap : paging.maxGapDays * 86400 <
      (s.historyStart - (s.toSecs + periodSecs paging.period) : ℤ)) :
    paging.EndsAtGap history (paging.availableFrom history s.historyStart) := by
  refine ⟨s.toSecs + periodSecs paging.period, s.historyStart, h.start_le, hgap, fun bar hbar => ?_,
    rfl⟩
  by_cases hlt : bar.boundarySecs < s.historyStart
  · have hle := h.below bar hbar hlt
    exact .inl (by omega)
  · exact .inr (not_lt.mp hlt)

/-- Whatever stops the loop, the bars it has are an answer. -/
theorem Served.answered {s : PagingState} (h : paging.Served history s)
    (htop : s.toSecs ≤ s.historyStart) {page : List RawBar}
    (hpage : PageOf history.bars (paging.fromSecs s.toSecs) s.toSecs page)
    (hasked : paging.startSecs.isSome = true ∨ paging.limit.isSome = true)
    (hstops : paging.stops page (paging.turn s page) = true) :
    paging.Answered history (ascending (paging.turn s page).bars) := by
  have hturn := h.turn htop hpage
  have hresult := hturn.ascending_eq
  have hwhole : paging.availableFrom history (paging.turn s page).historyStart =
      paging.available history → paging.Answered history (ascending (paging.turn s page).bars) := by
    intro hall
    rw [hresult, hall]
    exact ⟨List.suffix_refl _, fun _ => .inl rfl, fun limit _ => .inl (min_le_right _ _)⟩
  rw [stops, Bool.or_eq_true, Bool.or_eq_true, Bool.or_eq_true, decide_eq_true_eq] at hstops
  rcases hstops with ((hnothing | hlimit) | hout) | hgap
  · rw [Bool.and_eq_true, Option.isNone_iff_eq_none, Option.isNone_iff_eq_none] at hnothing
    rw [hnothing.1, hnothing.2] at hasked
    exact absurd hasked (by decide)
  · refine ⟨hresult ▸ availableFrom_suffix history _, fun hnone => ?_, fun limit hsome => .inl ?_⟩
    · rw [hnone] at hlimit
      exact nomatch hlimit
    · rw [hsome, Option.any_some, decide_eq_true_eq, hturn.closedCount_eq] at hlimit
      exact le_trans (min_le_left _ _) hlimit
  · rcases h.runsOut htop hpage hturn hout with hall | ⟨hstart, hwindow⟩
    · exact hwhole hall
    · rw [← hresult] at hwindow
      refine ⟨hresult ▸ availableFrom_suffix history _, fun hnone => ?_,
        fun limit _ => .inr (.inr ⟨hstart, hwindow⟩)⟩
      rw [hstart, hnone] at hasked
      exact absurd hasked (by decide)
  · have hends := hturn.endsAtGap hgap
    rw [← hresult] at hends
    exact ⟨hresult ▸ availableFrom_suffix history _, fun _ => .inr hends,
      fun limit _ => .inr (.inl hends)⟩

/-- A window is not empty. -/
theorem span_pos (paging : Paging) : 0 < paging.span :=
  mul_pos (by exact_mod_cast paging.pageSize_pos) (periodSecs_pos paging.period)

/-- A page after which the loop goes on moved its window's end down. -/
theorem turn_lower {s : PagingState} (htop : s.toSecs ≤ s.historyStart) {page : List RawBar}
    (hpage : PageOf history.bars (paging.fromSecs s.toSecs) s.toSecs page)
    (hon : paging.runsOut page (paging.turn s page) = false) :
    (paging.turn s page).toSecs ≤ (paging.turn s page).historyStart ∧
      (paging.turn s page).toSecs < s.toSecs := by
  have hspan := paging.span_pos
  have hperiod := periodSecs_pos paging.period
  rcases hpage with ⟨rfl, -⟩ | ⟨oldest, -, -, htopOldest, holdest, -⟩
  · have hto : (paging.turn s []).toSecs = paging.fromSecs s.toSecs := rfl
    have hstartOf : (paging.turn s []).historyStart = s.historyStart := rfl
    rw [hstartOf, hto]
    cases hstart : paging.startSecs with
    | none =>
      rw [Paging.runsOut, hstart] at hon
      exact absurd hon (by simp)
    | some start =>
      rw [Paging.runsOut, hstart, hto, fromSecs, hstart] at hon
      have hempty : oldestOf [] = none := rfl
      dsimp only at hon
      rw [hempty, Option.all_none, Bool.and_true, decide_eq_false_iff_not] at hon
      rw [fromSecs, hstart]
      dsimp only
      omega
  · have hto : (paging.turn s page).toSecs =
        min oldest.boundarySecs (s.toSecs - periodSecs paging.period) := by
      rw [Paging.turn, reached, holdest]
    have hstartOf : (paging.turn s page).historyStart = min s.historyStart oldest.boundarySecs := by
      rw [Paging.turn, holdest]
      rfl
    rw [hto, hstartOf]
    omega

/-- Below some time a page always runs the history out: the start, or the oldest bar there is. -/
theorem exists_floor (paging : Paging) (history : BarHistory paging.period) :
    ∃ floor, ∀ s page, PageOf history.bars (paging.fromSecs s.toSecs) s.toSecs page →
      s.toSecs < floor → paging.runsOut page (paging.turn s page) = true := by
  have hspan := paging.span_pos
  cases hstart : paging.startSecs with
  | some start =>
    refine ⟨start, fun s page hpage hlow => ?_⟩
    rcases hpage with ⟨rfl, -⟩ | ⟨oldest, -, -, htopOldest, holdest, -⟩
    · have hto : (paging.turn s []).toSecs = max start (s.toSecs - paging.span) := by
        rw [Paging.turn, reached, fromSecs, hstart]
        rfl
      have hempty : oldestOf [] = none := rfl
      rw [Paging.runsOut, hstart, hto, hempty]
      dsimp only
      rw [Option.all_none, Bool.and_true]
      exact decide_eq_true (by omega)
    · have hto : (paging.turn s page).toSecs =
          min oldest.boundarySecs (s.toSecs - periodSecs paging.period) := by
        rw [Paging.turn, reached, holdest]
      rw [Paging.runsOut, hstart, hto, holdest]
      dsimp only
      rw [Option.all_some]
      exact Bool.and_eq_true_iff.mpr ⟨decide_eq_true (by omega), decide_eq_true (by omega)⟩
  | none =>
    have hfloor : ∃ floor, ∀ bar ∈ history.bars, floor ≤ bar.boundarySecs := by
      by_cases hempty : history.bars = []
      · exact ⟨0, fun bar hbar => absurd hbar (hempty ▸ List.not_mem_nil)⟩
      · obtain ⟨oldest, -, -, hleast⟩ := exists_oldest hempty
        exact ⟨oldest.boundarySecs, hleast⟩
    obtain ⟨floor, hfloor⟩ := hfloor
    refine ⟨floor, fun s page hpage hlow => ?_⟩
    rcases hpage with ⟨rfl, -⟩ | ⟨oldest, -, hmem, htopOldest, -, -⟩
    · rw [Paging.runsOut, hstart]
      rfl
    · have hle := hfloor oldest hmem
      omega

/-- More fuel changes no answer. -/
theorem loop_more {request : ℕ → ProtoOAGetTrendbarsReq → ProtoOAGetTrendbarsRes} {fuel more : ℕ}
    {number : ℕ} {s : PagingState} {result : List RawBar}
    (h : paging.loop request fuel number s = some result) (hmore : fuel ≤ more) :
    paging.loop request more number s = some result := by
  induction fuel generalizing more number s with
  | zero => exact nomatch h
  | succ fuel ih =>
    obtain ⟨rest, rfl⟩ : ∃ rest, more = rest + 1 := ⟨more - 1, by omega⟩
    rw [loop] at h ⊢
    split
    · rename_i hstops
      rwa [if_pos hstops] at h
    · rename_i hgoes
      rw [if_neg hgoes] at h
      exact ih h (by omega)

/-- From any state the invariant allows, the loop ends with an answer. -/
theorem loop_answered {request : ℕ → ProtoOAGetTrendbarsReq → ProtoOAGetTrendbarsRes}
    (hserves : ServesAll history request)
    (hasked : paging.startSecs.isSome = true ∨ paging.limit.isSome = true) {floor : ℤ}
    (hfloor : ∀ s page, PageOf history.bars (paging.fromSecs s.toSecs) s.toSecs page →
      s.toSecs < floor → paging.runsOut page (paging.turn s page) = true)
    {fuel number : ℕ} {s : PagingState} (h : paging.Served history s)
    (htop : s.toSecs ≤ s.historyStart) (hfuel : (s.toSecs - floor + 1).toNat < fuel) :
    ∃ result, paging.loop request fuel number s = some result ∧ paging.Answered history result := by
  induction fuel generalizing number s with
  | zero => omega
  | succ fuel ih =>
    rw [loop]
    have hpage := pageOf_getTrendbars hserves number (paging.fromSecs s.toSecs) s.toSecs
      (paging.pageSize + 2)
    generalize (paging.getTrendbars (request number) (paging.fromSecs s.toSecs) s.toSecs
      (paging.pageSize + 2)).1 = page at hpage ⊢
    split
    · rename_i hstops
      exact ⟨_, rfl, h.answered htop hpage hasked hstops⟩
    · rename_i hgoes
      have hon : paging.runsOut page (paging.turn s page) = false := by
        rw [stops, Bool.or_eq_true, Bool.or_eq_true, not_or, not_or] at hgoes
        exact Bool.eq_false_of_not_eq_true hgoes.1.2
      have habove : floor ≤ s.toSecs := by
        by_contra hlow
        exact Bool.false_ne_true (hon.symm.trans (hfloor s page hpage (not_le.mp hlow)))
      obtain ⟨htop', hless⟩ := turn_lower htop hpage hon
      exact ih (h.turn htop hpage) htop' (by omega)

/-- A read that was asked for a start or a limit ends, whatever the venue cuts, and its bars are the
newest of those asked for, ascending and each once. Without a limit they are all of them, with one they
are as many closed ones as the limit asks for or the history has; lacking are only bars below a stretch
without a bar longer than the maximum gap and, for a limit without a start, below a page's window in
which no bar opens. -/
theorem pageTrendbars_answered (paging : Paging) (history : BarHistory paging.period)
    (request : ℕ → ProtoOAGetTrendbarsReq → ProtoOAGetTrendbarsRes)
    (hserves : ServesAll history request)
    (hasked : paging.startSecs.isSome = true ∨ paging.limit.isSome = true) :
    ∃ enough result, paging.Answered history result ∧
      ∀ fuel, enough ≤ fuel → paging.pageTrendbars request fuel = some result := by
  obtain ⟨floor, hfloor⟩ := exists_floor paging history
  have hloops {fuel : ℕ} := @loop_answered _ _ _ hserves hasked floor hfloor fuel 0
  obtain ⟨result, hloop, hanswered⟩ :=
    hloops (served_initial history) (le_refl _) (Nat.lt_succ_self _)
  exact ⟨_, result, hanswered, fun fuel hfuel => loop_more hloop hfuel⟩

/-! ## A stretch without a bar longer than a page

Two hourly bars five hours apart, read for their newest two in pages of one hour. -/

/-- A trendbar of nothing but its time. -/
def trendbarAt (minutes : ℤ) : ProtoOATrendbar := ⟨minutes, 0, 0, 0, 0, 0⟩

def twoBars : BarHistory .h1 where
  bars := [rawBar (trendbarAt 0), rawBar (trendbarAt 300)]
  spaced := by decide

def newestTwo : Paging where
  accountId := 1
  symbolId := 1
  period := .h1
  startSecs := none
  endSecs := 21600
  limit := some 2
  closedSecs := 21600
  pageSize := 1
  maxGapDays := 7
  pageSize_pos := Nat.one_pos

/-- A venue that cuts every page to the newest bar, and serves none where its window has none. -/
def oneBarPages (_ : ℕ) (asked : ProtoOAGetTrendbarsReq) : ProtoOAGetTrendbarsRes :=
  if 18000000 ≤ asked.toTimestamp then ⟨[trendbarAt 300], true⟩
  else if asked.fromTimestamp ≤ 0 ∧ 0 ≤ asked.toTimestamp then ⟨[trendbarAt 0], false⟩
  else ⟨[], false⟩

/-- A venue that serves one bar a page serves the history. -/
theorem oneBarPages_serves : ServesAll twoBars oneBarPages := by
  intro number asked
  have hboundaries : (rawBar (trendbarAt 0)).boundarySecs = 0 ∧
      (rawBar (trendbarAt 300)).boundarySecs = 18000 := ⟨rfl, rfl⟩
  have hmem (bar : RawBar) : bar ∈ twoBars.bars ↔
      bar = rawBar (trendbarAt 0) ∨ bar = rawBar (trendbarAt 300) := by simp [twoBars]
  unfold oneBarPages
  split
  · refine .inr ⟨List.cons_ne_nil _ _, 18000, fun bar => ?_⟩
    rw [List.map_singleton, List.mem_singleton, hmem]
    constructor
    · rintro rfl
      exact ⟨.inr rfl, by omega, by omega⟩
    · rintro ⟨rfl | rfl, hfloor, -⟩
      · omega
      · rfl
  split
  · refine .inr ⟨List.cons_ne_nil _ _, 0, fun bar => ?_⟩
    rw [List.map_singleton, List.mem_singleton, hmem]
    constructor
    · rintro rfl
      exact ⟨.inl rfl, by omega, by omega⟩
    · rintro ⟨rfl | rfl, -, htop⟩
      · rfl
      · omega
  · refine .inl ⟨rfl, fun bar hbar => ?_⟩
    rcases (hmem bar).mp hbar with rfl | rfl
    · omega
    · omega

/-- The newest two bars are read from such a venue. -/
theorem newestTwo_answered : ∃ enough result, newestTwo.Answered twoBars result ∧
    ∀ fuel, enough ≤ fuel → newestTwo.pageTrendbars oneBarPages fuel = some result :=
  pageTrendbars_answered newestTwo twoBars oneBarPages oneBarPages_serves (.inr rfl)

/-- The run reads the one bar that has closed. -/
theorem newestTwo_result : newestTwo.pageTrendbars oneBarPages 3 = some [rawBar (trendbarAt 300)] := by
  decide +kernel

/-- An empty page ends a read without a start, though an older bar lies within the maximum gap. -/
theorem empty_page_ends_limited : ¬ ∀ (paging : Paging) (history : BarHistory paging.period)
    (request : ℕ → ProtoOAGetTrendbarsReq → ProtoOAGetTrendbarsRes) (limit : ℕ),
    ServesAll history request → paging.startSecs = none → paging.limit = some limit →
    ∃ fuel result, paging.pageTrendbars request fuel = some result ∧
      (min limit ((paging.available history).filter paging.closed).length ≤
          (result.filter paging.closed).length ∨ paging.EndsAtGap history result) := by
  intro hclaim
  obtain ⟨fuel, result, hresult, hcomplete⟩ :=
    hclaim newestTwo twoBars oneBarPages 2 oneBarPages_serves rfl rfl
  have hthree := newestTwo_result
  have hone : result = [rawBar (trendbarAt 300)] := by
    rcases Nat.le_total fuel 3 with hle | hle
    · exact Option.some.inj ((loop_more hresult hle).symm.trans hthree)
    · exact Option.some.inj (hresult.symm.trans (loop_more hthree hle))
  subst hone
  rcases hcomplete with hcount | ⟨fromSecs, toSecs, hend, hgap, hfree, hcut⟩
  · exact absurd hcount (by decide)
  · have hgap' : 604800 < toSecs - fromSecs := by
      have hdays : newestTwo.maxGapDays = 7 := rfl
      rw [hdays] at hgap
      have hcast : ((604800 : ℤ) : ℚ) < ((toSecs - fromSecs : ℤ) : ℚ) := by
        refine lt_of_le_of_lt ?_ hgap
        norm_num
      exact_mod_cast hcast
    have holder := hfree (rawBar (trendbarAt 0)) (by simp [twoBars])
    have hnewer := hfree (rawBar (trendbarAt 300)) (by simp [twoBars])
    have hzero : (rawBar (trendbarAt 0)).boundarySecs = 0 := rfl
    have hfive : (rawBar (trendbarAt 300)).boundarySecs = 18000 := rfl
    have hperiod : periodSecs newestTwo.period = 3600 := rfl
    have hendOf : newestTwo.endSecs = 21600 := rfl
    rcases holder with hafter | hbefore
    · omega
    · have hmem : rawBar (trendbarAt 0) ∈ newestTwo.availableFrom twoBars toSecs :=
        mem_availableFrom.mpr ⟨by simp [twoBars], rfl, hbefore⟩
      rw [← hcut] at hmem
      exact absurd hmem (by decide)

end Paging

end Bars

end NautilusCtrader
