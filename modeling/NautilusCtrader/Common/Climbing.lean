import Mathlib.Order.Lattice
import NautilusCtrader.Common.Machine

/-!
# Numbers given out along a run

A state has reached some numbers of each series, and with a number all those below it. An output gives
a number only if the state before had not reached it and the state after has. Then the numbers that a
run gives in a series increase from output to output, so that none is given twice.
-/

namespace Common

variable {σ ρ κ ι : Type}

/-- From `s` to `t`, telling `told`, numbers are only ever given above those reached. -/
structure Climbs [LT ι] (reached : σ → κ → ι → Prop) (gives : ρ → κ → ι → Prop) (s : σ)
    (told : List ρ) (t : σ) : Prop where
  grown : ∀ series number, reached s series number → reached t series number
  given : ∀ output ∈ told, ∀ series number, gives output series number → reached t series number
  fresh : ∀ output ∈ told, ∀ series number, gives output series number → ¬ reached s series number
  increasing : told.Pairwise fun output later => ∀ series number number',
    gives output series number → gives later series number' → number < number'

namespace Climbs

/-- Outputs that give no number. -/
theorem quiet [LT ι] {reached : σ → κ → ι → Prop} {gives : ρ → κ → ι → Prop} {s t : σ}
    {told : List ρ} (hgrown : ∀ series number, reached s series number → reached t series number)
    (hquiet : ∀ output ∈ told, ∀ series number, ¬ gives output series number) :
    Climbs reached gives s told t where
  grown := hgrown
  given output houtput series number h := absurd h (hquiet output houtput series number)
  fresh output houtput series number h := absurd h (hquiet output houtput series number)
  increasing := List.pairwise_of_forall_mem_list fun output houtput _ _ series number _ h =>
    absurd h (hquiet output houtput series number)

variable [LinearOrder ι] {reached : σ → κ → ι → Prop} {gives : ρ → κ → ι → Prop}

/-- What climbs on goes on climbing. -/
theorem trans (hbelow : ∀ s series number lower, reached s series number → lower ≤ number →
      reached s series lower) {s t u : σ} {told later : List ρ} (h : Climbs reached gives s told t)
    (h' : Climbs reached gives t later u) : Climbs reached gives s (told ++ later) u where
  grown series number hreached := h'.grown _ _ (h.grown _ _ hreached)
  given output houtput series number hgives := by
    rcases List.mem_append.mp houtput with hmem | hmem
    · exact h'.grown _ _ (h.given output hmem series number hgives)
    · exact h'.given output hmem series number hgives
  fresh output houtput series number hgives hreached := by
    rcases List.mem_append.mp houtput with hmem | hmem
    · exact h.fresh output hmem series number hgives hreached
    · exact h'.fresh output hmem series number hgives (h.grown _ _ hreached)
  increasing := by
    refine List.pairwise_append.mpr ⟨h.increasing, h'.increasing, ?_⟩
    intro output houtput output' houtput' series number number' hgives hgives'
    have hreached := h.given output houtput series number hgives
    have hnot := h'.fresh output' houtput' series number' hgives'
    by_contra hle
    exact hnot (hbelow t series number number' hreached (not_lt.mp hle))

/-- A run whose every step climbs climbs. -/
theorem run {μ : Type} {m : Machine σ μ ρ} {I : σ → Prop}
    (hbelow : ∀ s series number lower, reached s series number → lower ≤ number →
      reached s series lower)
    (hkeeps : ∀ s i, I s → I (m.step s i).1)
    (hstep : ∀ s i, I s → Climbs reached gives s (m.step s i).2 (m.step s i).1) {s : σ} (hs : I s)
    (is : List μ) : Climbs reached gives s (m.told s is) (m.after s is) := by
  induction is generalizing s with
  | nil => exact quiet (fun _ _ h => h) fun output houtput => absurd houtput List.not_mem_nil
  | cons i is ih => exact (hstep s i hs).trans hbelow (ih (hkeeps s i hs))

end Climbs

end Common
