import Mathlib.Data.List.Perm.Subperm
import Mathlib.Data.Prod.Lex
import NautilusCtrader.Bars.Paging

/-!
# Paging back ends

Whatever the venue serves, the loop of `_page_trendbars` ends. A page after which it goes on either
brings an older bar, which for a limit is one closed bar more or one that is not closed yet, or moves its
window down through a stretch without a bar, which must not grow longer than the maximum gap.
-/

namespace NautilusCtrader

open Common

namespace Bars

namespace Paging

variable {paging : Paging} {found found' : Dict ℤ RawBar} {page : List RawBar} {s : PagingState}

/-! ## What a page adds -/

/-- Whether a bar is kept under a boundary. -/
def Held (found : Dict ℤ RawBar) (boundary : ℤ) : Prop := boundary ∈ found.keys

/-- A bar that is read is held, with those held before. -/
theorem held_setDefault {bar : RawBar} {boundary : ℤ} :
    Held (found.setDefault bar.boundarySecs bar) boundary ↔
      Held found boundary ∨ bar.boundarySecs = boundary := by
  have hkeys (d : Dict ℤ RawBar) : Held d boundary ↔ d.get? boundary ≠ none := by
    rw [Held, ← not_iff_not, not_not]
    exact Dict.notMem_keys
  rw [hkeys, hkeys, Dict.get?_setDefault]
  by_cases hkey : bar.boundarySecs = boundary <;> simp [hkey]

/-- A page adds the boundaries of its bars that are asked for. -/
theorem held_keepPage {boundary : ℤ} : Held (paging.keepPage found page) boundary ↔
    Held found boundary ∨ ∃ bar ∈ page, paging.asks bar = true ∧ bar.boundarySecs = boundary := by
  induction page generalizing found with
  | nil => simp [keepPage]
  | cons head tail ih =>
    have hcons : paging.keepPage found (head :: tail) = paging.keepPage
        (if paging.asks head then found.setDefault head.boundarySecs head else found) tail := rfl
    rw [hcons, ih]
    by_cases hasks : paging.asks head = true
    · simp [hasks, held_setDefault, or_assoc]
    · simp [hasks]

/-- No closed bar is counted twice. -/
theorem nodup_closedKeys (paging : Paging) (found : Dict ℤ RawBar) :
    (found.keys.filter fun boundary =>
      boundary + periodSecs paging.period ≤ paging.closedSecs).Nodup :=
  List.Nodup.filter _ found.nodup

/-- More boundaries, no fewer closed bars. -/
theorem closedCount_le (h : ∀ boundary, Held found boundary → Held found' boundary) :
    paging.closedCount found ≤ paging.closedCount found' := by
  refine (List.subperm_of_subset (nodup_closedKeys paging found) ?_).length_le
  intro boundary hboundary
  obtain ⟨hheld, hclosed⟩ := List.mem_filter.mp hboundary
  exact List.mem_filter.mpr ⟨h boundary hheld, hclosed⟩

/-- One more closed boundary is one more closed bar. -/
theorem closedCount_lt (h : ∀ boundary, Held found boundary → Held found' boundary) {boundary : ℤ}
    (hnew : ¬ Held found boundary) (hheld : Held found' boundary)
    (hclosed : boundary + periodSecs paging.period ≤ paging.closedSecs) :
    paging.closedCount found < paging.closedCount found' := by
  have hnodup := List.nodup_cons.mpr
    ⟨fun hmem => hnew (List.mem_filter.mp hmem).1, nodup_closedKeys paging found⟩
  refine (List.subperm_of_subset hnodup ?_).length_le
  intro other hother
  rcases List.mem_cons.mp hother with rfl | hother
  · exact List.mem_filter.mpr ⟨hheld, decide_eq_true hclosed⟩
  · obtain ⟨hold, hotherClosed⟩ := List.mem_filter.mp hother
    exact List.mem_filter.mpr ⟨h other hold, hotherClosed⟩

/-! ## How far from the end -/

/-- No bar is kept from below the oldest served. -/
structure Low (paging : Paging) (s : PagingState) : Prop where
  kept : ∀ boundary, Held s.bars boundary → s.historyStart ≤ boundary
  below : s.historyStart ≤ paging.endSecs

/-- From here up a bar served may count for nothing: the start, or where a bar is not closed. -/
def base (paging : Paging) : ℤ :=
  paging.startSecs.getD (paging.closedSecs - periodSecs paging.period)

/-- The maximum gap in whole seconds. -/
def gapSecs (paging : Paging) : ℤ := ⌊paging.maxGapDays * 86400⌋

/-- The closed bars that are missing, the time above the base, and how far down the window may go. -/
def rank (paging : Paging) (s : PagingState) : ℕ ×ₗ ℕ ×ₗ ℕ :=
  toLex (paging.limit.getD 0 - paging.closedCount s.bars, toLex (
    (s.historyStart - paging.base).toNat,
    (s.toSecs - (s.historyStart - periodSecs paging.period - paging.gapSecs)).toNat))

/-- At the start no bar is held. -/
theorem low_initial (paging : Paging) : paging.Low paging.initial :=
  ⟨nofun, le_refl _⟩

/-- The oldest bar served so far. -/
theorem historyStart_turn (paging : Paging) (s : PagingState) (page : List RawBar) :
    (paging.turn s page).historyStart ≤ s.historyStart ∧
      (∀ bar ∈ page, (paging.turn s page).historyStart ≤ bar.boundarySecs) ∧
      ((paging.turn s page).historyStart < s.historyStart →
        ∃ bar ∈ page, oldestOf page = some (paging.turn s page).historyStart ∧
          bar.boundarySecs = (paging.turn s page).historyStart) := by
  by_cases hpage : page = []
  · subst hpage
    exact ⟨le_refl _, nofun, fun hlt => absurd hlt (lt_irrefl _)⟩
  · obtain ⟨oldest, hmem, holdest, hleast⟩ := exists_oldest hpage
    have hstart : (paging.turn s page).historyStart = min s.historyStart oldest.boundarySecs := by
      rw [Paging.turn, holdest]
      rfl
    rw [hstart]
    refine ⟨min_le_left _ _, ?_, ?_⟩
    · intro bar hbar
      exact (min_le_right _ _).trans (hleast bar hbar)
    · intro hlt
      have hmin : min s.historyStart oldest.boundarySecs = oldest.boundarySecs := by omega
      rw [hmin]
      exact ⟨oldest, hmem, holdest, rfl⟩

/-- A further page moves the start of history down to its oldest bar, if it is older. -/
theorem Low.turn (h : paging.Low s) (page : List RawBar) : paging.Low (paging.turn s page) := by
  obtain ⟨hle, hpage, -⟩ := historyStart_turn paging s page
  refine ⟨?_, hle.trans h.below⟩
  intro boundary hheld
  rcases held_keepPage.mp hheld with hold | ⟨bar, hbar, -, rfl⟩
  · exact hle.trans (h.kept boundary hold)
  · exact hpage bar hbar

/-- What is left open by a page after which the loop goes on. -/
theorem goes_on {page : List RawBar} {s : PagingState} (h : paging.stops page s = false) :
    (paging.startSecs = none → ∃ limit, paging.limit = some limit) ∧
      (∀ limit, paging.limit = some limit → paging.closedCount s.bars < limit) ∧
      paging.runsOut page s = false ∧
      s.historyStart - periodSecs paging.period - paging.gapSecs ≤ s.toSecs := by
  simp only [stops, Bool.or_eq_false_iff, decide_eq_false_iff_not, not_lt] at h
  obtain ⟨⟨⟨hasked, hlimit⟩, hruns⟩, hgap⟩ := h
  refine ⟨?_, ?_, hruns, ?_⟩
  · intro hstart
    rw [hstart] at hasked
    cases hlim : paging.limit with
    | none => simp [hlim] at hasked
    | some limit => exact ⟨limit, rfl⟩
  · intro limit hlim
    rw [hlim] at hlimit
    simpa using hlimit
  · have hfloor : s.historyStart - (s.toSecs + periodSecs paging.period) ≤ paging.gapSecs :=
      Int.le_floor.mpr hgap
    omega

/-- A page after which the loop goes on moves its window down. -/
theorem toSecs_turn (hruns : paging.runsOut page (paging.turn s page) = false) :
    (paging.turn s page).toSecs < s.toSecs := by
  have hspan := paging.span_pos
  have hperiod := periodSecs_pos paging.period
  have hto : (paging.turn s page).toSecs = paging.reached s.toSecs page := rfl
  by_cases hpage : page = []
  · subst hpage
    rw [runsOut, hto] at hruns
    rw [hto]
    have hreached : paging.reached s.toSecs [] = paging.fromSecs s.toSecs := rfl
    have hempty : oldestOf [] = none := rfl
    rw [hreached, hempty] at hruns
    rw [hreached]
    unfold fromSecs at hruns ⊢
    cases hstart : paging.startSecs with
    | none => simp [hstart] at hruns
    | some start =>
      simp only [hstart, Option.all_none, Bool.and_true, decide_eq_false_iff_not] at hruns
      dsimp only
      omega
  · obtain ⟨oldest, -, holdest, -⟩ := exists_oldest hpage
    rw [hto, reached, holdest]
    dsimp only
    omega

/-- Where an older bar is served and the loop goes on, that bar opens above the base, or it is one more
closed bar of a request without a start. -/
theorem older_counts (h : paging.Low s) (hgoes : paging.stops page (paging.turn s page) = false)
    (holder : (paging.turn s page).historyStart < s.historyStart) :
    paging.base < (paging.turn s page).historyStart ∨ paging.startSecs = none ∧
      paging.closedCount s.bars < paging.closedCount (paging.turn s page).bars := by
  obtain ⟨-, -, hruns, -⟩ := goes_on hgoes
  obtain ⟨-, -, hserved⟩ := historyStart_turn paging s page
  obtain ⟨bar, hbar, holdest, hboundary⟩ := hserved holder
  have hto : (paging.turn s page).toSecs ≤ (paging.turn s page).historyStart := by
    have hreached : (paging.turn s page).toSecs = paging.reached s.toSecs page := rfl
    rw [hreached, reached, holdest]
    exact min_le_left _ _
  unfold base
  cases hstart : paging.startSecs with
  | some start =>
    left
    rw [Option.getD_some]
    simp only [runsOut, hstart, holdest, Option.all_some, Bool.and_eq_false_iff,
      decide_eq_false_iff_not] at hruns
    omega
  | none =>
    rw [Option.getD_none]
    by_cases hclosed : bar.boundarySecs + periodSecs paging.period ≤ paging.closedSecs
    · right
      -- it opens below everything that is kept, so it is new
      have hasks : paging.asks bar = true := by
        have hend := h.below
        simp only [asks, hstart, Option.all_none, Bool.and_true, decide_eq_true_eq]
        omega
      have hnew : ¬ Held s.bars bar.boundarySecs := by
        intro hheld
        have hle := h.kept _ hheld
        omega
      exact ⟨rfl, closedCount_lt (fun _ hheld => held_keepPage.mpr (.inl hheld)) hnew
        (held_keepPage.mpr (.inr ⟨bar, hbar, hasks, rfl⟩)) hclosed⟩
    · left
      omega

/-- A page after which the loop goes on brings it nearer to its end. -/
theorem turn_lowers (h : paging.Low s) (hgoes : paging.stops page (paging.turn s page) = false) :
    paging.rank (paging.turn s page) < paging.rank s := by
  obtain ⟨hasked, hlimit, hruns, hgap⟩ := goes_on hgoes
  obtain ⟨hle, -, -⟩ := historyStart_turn paging s page
  have hdown := toSecs_turn hruns
  have hcount : paging.closedCount s.bars ≤ paging.closedCount (paging.turn s page).bars :=
    closedCount_le fun boundary hheld => held_keepPage.mpr (.inl hheld)
  unfold rank
  rw [Prod.Lex.toLex_lt_toLex', Prod.Lex.toLex_lt_toLex']
  refine ⟨by dsimp only; omega, fun hmissing => ⟨by dsimp only; omega, fun habove => ?_⟩⟩
  dsimp only at hmissing habove ⊢
  have hsame : (paging.turn s page).historyStart = s.historyStart := by
    by_contra hne
    have holder : (paging.turn s page).historyStart < s.historyStart := lt_of_le_of_ne hle hne
    rcases older_counts h hgoes holder with hbase | ⟨hstart, hmore⟩
    · omega
    · obtain ⟨limit, hlim⟩ := hasked hstart
      have hopen := hlimit limit hlim
      rw [hlim, Option.getD_some] at hmissing
      omega
  omega

end Paging

end Bars

end NautilusCtrader
