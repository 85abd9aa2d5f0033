import Mathlib.Order.WellFounded
import NautilusCtrader.Common.Machine

/-!
# Endless runs

A machine may take inputs without end. Where some inputs come again and again, and each of them lowers
a rank that no input raises, the run reaches its goal, since a rank cannot be lowered for ever.
-/

namespace Common

namespace Machine

variable {σ ι ρ α : Type} (m : Machine σ ι ρ) (s : σ) (run : ℕ → ι)

/-- The state after the first `n` inputs of a run from `s`. -/
def stateAt (n : ℕ) : σ := m.after s ((List.range n).map run)

/-- What the first `n` inputs of a run from `s` tell. -/
def toldBy (n : ℕ) : List ρ := m.told s ((List.range n).map run)

/-- The state after one input more. -/
theorem stateAt_succ (n : ℕ) :
    m.stateAt s run (n + 1) = (m.step (m.stateAt s run n) (run n)).1 := by
  rw [stateAt, List.range_succ, List.map_append, after_append]
  rfl

/-- What is told by one input more. -/
theorem toldBy_succ (n : ℕ) :
    m.toldBy s run (n + 1) = m.toldBy s run n ++ (m.step (m.stateAt s run n) (run n)).2 := by
  rw [toldBy, List.range_succ, List.map_append, told_append]
  simp [toldBy, stateAt]

/-- Some inputs come again and again. -/
def Recurs (turn : ι → Prop) : Prop := ∀ n, ∃ k, n ≤ k ∧ turn (run k)

variable {m s run}

/-- An invariant that holds after `k` inputs and that each later one keeps holds from there on. -/
theorem holds_from {I : List ρ → σ → Prop} {k : ℕ} (hk : I (m.toldBy s run k) (m.stateAt s run k))
    (hstep : ∀ n, k ≤ n → ∀ told state, I told state →
      I (told ++ (m.step state (run n)).2) (m.step state (run n)).1) {n : ℕ} (hn : k ≤ n) :
    I (m.toldBy s run n) (m.stateAt s run n) := by
  induction n, hn using Nat.le_induction with
  | base => exact hk
  | succ n hn ih =>
    rw [toldBy_succ, stateAt_succ]
    exact hstep n hn _ _ ih

section Ranks

variable [Preorder α] {goal : σ → Prop} (rank : σ → α) {k : ℕ}

/-- Before the goal no input raises the rank, so none of several does. -/
theorem rank_le_of_open
    (hkeeps : ∀ n, k ≤ n → ¬ goal (m.stateAt s run n) →
      rank (m.stateAt s run (n + 1)) ≤ rank (m.stateAt s run n))
    (hopen : ∀ n, k ≤ n → ¬ goal (m.stateAt s run n)) {n j : ℕ} (hn : k ≤ n) (hj : n ≤ j) :
    rank (m.stateAt s run j) ≤ rank (m.stateAt s run n) := by
  induction j, hj using Nat.le_induction with
  | base => exact le_refl _
  | succ i hi ih => exact (hkeeps i (hn.trans hi) (hopen i (hn.trans hi))).trans ih

/-- A goal that inputs come closer to by a rank, again and again, is reached. -/
theorem reaches_of_rank [WellFoundedLT α] {turn : ι → Prop} (hrecurs : Recurs run turn)
    (hkeeps : ∀ n, k ≤ n → ¬ goal (m.stateAt s run n) →
      rank (m.stateAt s run (n + 1)) ≤ rank (m.stateAt s run n))
    (hlowers : ∀ n, k ≤ n → turn (run n) → ¬ goal (m.stateAt s run n) →
      rank (m.stateAt s run (n + 1)) < rank (m.stateAt s run n)) :
    ∃ n, k ≤ n ∧ goal (m.stateAt s run n) := by
  by_contra hnever
  have hopen (n : ℕ) (hn : k ≤ n) : ¬ goal (m.stateAt s run n) := fun hgoal => hnever ⟨n, hn, hgoal⟩
  suffices ∀ a n, k ≤ n → rank (m.stateAt s run n) = a → False from this _ k (le_refl k) rfl
  intro a
  induction a using WellFoundedLT.induction with
  | ind a ih =>
    intro n hn ha
    obtain ⟨j, hj, hturn⟩ := hrecurs n
    have hlower := hlowers j (hn.trans hj) hturn (hopen j (hn.trans hj))
    have hstays := rank_le_of_open rank hkeeps hopen hn hj
    exact ih _ (ha ▸ hlower.trans_le hstays) (j + 1) (by omega) rfl

end Ranks

end Machine

end Common
