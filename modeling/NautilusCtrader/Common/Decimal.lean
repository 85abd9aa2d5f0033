import Mathlib.Algebra.Order.Floor.Ring
import Mathlib.Data.Rat.Floor
import Mathlib.Data.Nat.Log
import Mathlib.Tactic.FieldSimp
import Mathlib.Tactic.Linarith

/-!
# Decimal rounding

Decimals are rationals here: the operations below are the roundings of a decimal context, half to
even, on their values. `quantize` rounds to a number of places and refuses a result with more
digits than the context holds; `inContext` rounds to the context's significant digits, which moves
with a power of ten (`inContext_mul_zpow`) and keeps a sign (`inContext_pos_iff`).
-/

namespace Common

/-- The significant digits of the default decimal context. -/
def contextDigits : ℕ := 28

/-- The nearest integer to `q`, a tie going to the even one. -/
def roundHalfEven (q : ℚ) : ℤ :=
  let low := ⌊q⌋
  let rest := q - low
  if rest < 1 / 2 then low
  else if 1 / 2 < rest then low + 1
  else if low % 2 = 0 then low else low + 1

/-- `q` at `places` decimals, half-even; `none` when the result has too many digits to hold. -/
def quantize (q : ℚ) (places : ℕ) : Option ℚ :=
  let scaled := roundHalfEven (q * 10 ^ places)
  if scaled.natAbs < 10 ^ contextDigits then some (scaled / 10 ^ places) else none

/-- `q` rounded half-even to the significant digits of the context. -/
def inContext (q : ℚ) : ℚ :=
  -- The exponent of the leading digit, which the logarithms give up to one.
  let guess : ℤ := (Nat.log 10 q.num.natAbs : ℤ) - Nat.log 10 q.den
  let leading := if |q| < (10 : ℚ) ^ guess then guess - 1 else guess
  let scale : ℤ := (contextDigits : ℤ) - 1 - leading
  roundHalfEven (q * (10 : ℚ) ^ scale) / (10 : ℚ) ^ scale

example : quantize (851975 / 10000) 1 = some (852 / 10) := by decide +kernel

/-! ## What a rounding keeps -/

/-- An integer is rounded to itself. -/
theorem roundHalfEven_intCast (n : ℤ) : roundHalfEven n = n := by
  simp [roundHalfEven]

/-- A number is not rounded below its floor. -/
theorem floor_le_roundHalfEven (q : ℚ) : ⌊q⌋ ≤ roundHalfEven q := by
  unfold roundHalfEven
  dsimp only
  split_ifs <;> omega

/-- Nor above its ceiling. -/
theorem roundHalfEven_le_ceil (q : ℚ) : roundHalfEven q ≤ ⌈q⌉ := by
  have hfloor : ⌊q⌋ ≤ ⌈q⌉ := Int.floor_le_ceil q
  have hceil (h : 1 / 2 ≤ q - ⌊q⌋) : ⌊q⌋ + 1 ≤ ⌈q⌉ := by
    rw [Int.add_one_le_iff, Int.lt_ceil]
    linarith
  unfold roundHalfEven
  dsimp only
  split_ifs with hlow hhigh
  · exact hfloor
  · exact hceil hhigh.le
  · exact hfloor
  · exact hceil (not_lt.mp hlow)

/-- Rounding does not cross an integer from above. -/
theorem le_roundHalfEven {q : ℚ} {n : ℤ} (h : n ≤ q) : n ≤ roundHalfEven q :=
  (Int.le_floor.mpr h).trans (floor_le_roundHalfEven q)

/-- Nor from below. -/
theorem roundHalfEven_le {q : ℚ} {n : ℤ} (h : q ≤ n) : roundHalfEven q ≤ n :=
  (roundHalfEven_le_ceil q).trans (Int.ceil_le.mpr h)

/-- What is less than half from a whole number is rounded to it. -/
theorem roundHalfEven_of_near {q : ℚ} {n : ℤ} (h : |q - n| < 1 / 2) : roundHalfEven q = n := by
  obtain ⟨hlow, hhigh⟩ := abs_lt.mp h
  rcases lt_or_ge q n with hlt | hge
  · have hfloor : ⌊q⌋ = n - 1 := by
      rw [Int.floor_eq_iff]
      push_cast
      exact ⟨by linarith, by linarith⟩
    have hrest : 1 / 2 < q - ⌊q⌋ := by
      rw [hfloor]
      push_cast
      linarith
    unfold roundHalfEven
    dsimp only
    rw [if_neg (not_lt.mpr hrest.le), if_pos hrest, hfloor, sub_add_cancel]
  · have hfloor : ⌊q⌋ = n := by
      rw [Int.floor_eq_iff]
      exact ⟨hge, by linarith⟩
    unfold roundHalfEven
    dsimp only
    rw [hfloor, if_pos hhigh]

/-- A value that is less than half a unit of the last place from one that fits is rounded to it. -/
theorem quantize_of_near {q value : ℚ} {places : ℕ} (hfits : quantize q places = some q)
    (hnear : |value - q| * 10 ^ places < 1 / 2) : quantize value places = some q := by
  have hscale : (0 : ℚ) < 10 ^ places := pow_pos (by norm_num) places
  have hwhole : q * 10 ^ places = roundHalfEven (q * 10 ^ places) := by
    unfold quantize at hfits
    dsimp only at hfits
    split at hfits
    · conv_lhs => rw [← Option.some.inj hfits]
      exact div_mul_cancel₀ _ hscale.ne'
    · cases hfits
  have hround : roundHalfEven (value * 10 ^ places) = roundHalfEven (q * 10 ^ places) := by
    apply roundHalfEven_of_near
    rw [← hwhole, ← sub_mul, abs_mul, abs_of_pos hscale]
    exact hnear
  unfold quantize at hfits ⊢
  rw [hround]
  exact hfits

/-! ## The context's digits -/

/-- The exponent of the leading digit of `q`. -/
structure Leading (q : ℚ) (exponent : ℤ) : Prop where
  le : (10 : ℚ) ^ exponent ≤ |q|
  lt : |q| < (10 : ℚ) ^ (exponent + 1)

/-- A number has one leading digit. -/
theorem Leading.unique {q : ℚ} {exponent exponent' : ℤ} (h : Leading q exponent)
    (h' : Leading q exponent') : exponent = exponent' := by
  have hlt := (zpow_lt_zpow_iff_right₀ (by norm_num : (1 : ℚ) < 10)).mp (h.le.trans_lt h'.lt)
  have hlt' := (zpow_lt_zpow_iff_right₀ (by norm_num : (1 : ℚ) < 10)).mp (h'.le.trans_lt h.lt)
  omega

/-- A power of ten moves the leading digit. -/
theorem Leading.mul_zpow {q : ℚ} {exponent : ℤ} (h : Leading q exponent) (k : ℤ) :
    Leading (q * 10 ^ k) (exponent + k) := by
  have hpos : (0 : ℚ) < 10 ^ k := zpow_pos (by norm_num) k
  have habs : |q * 10 ^ k| = |q| * 10 ^ k := by
    rw [abs_mul, abs_of_pos hpos]
  constructor
  · rw [habs, zpow_add₀ (by norm_num)]
    exact mul_le_mul_of_nonneg_right h.le hpos.le
  · rw [habs, add_right_comm, zpow_add₀ (by norm_num)]
    exact mul_lt_mul_of_pos_right h.lt hpos

/-- The logarithms of numerator and denominator give the leading digit's exponent up to one. -/
theorem leading_guess {q : ℚ} (hq : q ≠ 0) :
    Leading q (if |q| < (10 : ℚ) ^ ((Nat.log 10 q.num.natAbs : ℤ) - Nat.log 10 q.den) then
      (Nat.log 10 q.num.natAbs : ℤ) - Nat.log 10 q.den - 1
    else (Nat.log 10 q.num.natAbs : ℤ) - Nat.log 10 q.den) := by
  have hnum : q.num.natAbs ≠ 0 := by simpa using hq
  have hdenPos : (0 : ℚ) < q.den := by exact_mod_cast q.den_pos
  have habs : |q| = (q.num.natAbs : ℚ) / q.den := by
    conv_lhs => rw [← Rat.num_div_den q]
    rw [abs_div, abs_of_pos hdenPos, ← Int.cast_abs, Nat.cast_natAbs]
  have hnumLe : (10 : ℚ) ^ Nat.log 10 q.num.natAbs ≤ q.num.natAbs := by
    exact_mod_cast Nat.pow_log_le_self 10 hnum
  have hnumLt : (q.num.natAbs : ℚ) < 10 ^ (Nat.log 10 q.num.natAbs + 1) := by
    exact_mod_cast Nat.lt_pow_succ_log_self (by norm_num) q.num.natAbs
  have hdenLe : (10 : ℚ) ^ Nat.log 10 q.den ≤ q.den := by
    exact_mod_cast Nat.pow_log_le_self 10 q.den_nz
  have hdenLt : (q.den : ℚ) < 10 ^ (Nat.log 10 q.den + 1) := by
    exact_mod_cast Nat.lt_pow_succ_log_self (by norm_num) q.den
  generalize Nat.log 10 q.num.natAbs = n at *
  generalize Nat.log 10 q.den = d at *
  -- the quotient is within one digit of the difference of the logarithms
  have hlower : (10 : ℚ) ^ ((n : ℤ) - d - 1) ≤ |q| := by
    rw [habs, le_div_iff₀ hdenPos]
    have hsplit : (10 : ℚ) ^ ((n : ℤ) - d - 1) * 10 ^ (d + 1) = 10 ^ n := by
      rw [← zpow_natCast, ← zpow_natCast, ← zpow_add₀ (by norm_num)]
      congr 1
      push_cast
      ring
    calc (10 : ℚ) ^ ((n : ℤ) - d - 1) * q.den ≤ 10 ^ ((n : ℤ) - d - 1) * 10 ^ (d + 1) :=
          mul_le_mul_of_nonneg_left hdenLt.le (zpow_pos (by norm_num) _).le
      _ = 10 ^ n := hsplit
      _ ≤ q.num.natAbs := hnumLe
  have hupper : |q| < (10 : ℚ) ^ ((n : ℤ) - d + 1) := by
    rw [habs, div_lt_iff₀ hdenPos]
    have hsplit : (10 : ℚ) ^ ((n : ℤ) - d + 1) * 10 ^ d = 10 ^ (n + 1) := by
      rw [← zpow_natCast, ← zpow_natCast, ← zpow_add₀ (by norm_num)]
      congr 1
      push_cast
      ring
    calc (q.num.natAbs : ℚ) < 10 ^ (n + 1) := hnumLt
      _ = 10 ^ ((n : ℤ) - d + 1) * 10 ^ d := hsplit.symm
      _ ≤ 10 ^ ((n : ℤ) - d + 1) * q.den :=
          mul_le_mul_of_nonneg_left hdenLe (zpow_pos (by norm_num) _).le
  by_cases hlt : |q| < (10 : ℚ) ^ ((n : ℤ) - d)
  · rw [if_pos hlt]
    exact ⟨hlower, by rwa [sub_add_cancel]⟩
  · rw [if_neg hlt]
    exact ⟨not_lt.mp hlt, hupper⟩

/-- What a rounding to the context's digits is, by the leading digit. -/
theorem inContext_of_leading {q : ℚ} {exponent : ℤ} (h : Leading q exponent) :
    inContext q = roundHalfEven (q * (10 : ℚ) ^ ((contextDigits : ℤ) - 1 - exponent)) /
      (10 : ℚ) ^ ((contextDigits : ℤ) - 1 - exponent) := by
  have hq : q ≠ 0 := by
    rintro rfl
    have hpos := (zpow_pos (by norm_num : (0 : ℚ) < 10) exponent).trans_le h.le
    rw [abs_zero] at hpos
    exact lt_irrefl _ hpos
  rw [h.unique (leading_guess hq)]
  rfl

/-- Zero is exact. -/
theorem inContext_zero : inContext 0 = 0 := by
  have hround : roundHalfEven 0 = 0 := by exact_mod_cast roundHalfEven_intCast 0
  unfold inContext
  dsimp only
  rw [zero_mul, hround, Int.cast_zero, zero_div]

/-- A rounding to the context's digits moves with a power of ten. -/
theorem inContext_mul_zpow (q : ℚ) (k : ℤ) : inContext (q * 10 ^ k) = inContext q * 10 ^ k := by
  by_cases hq : q = 0
  · rw [hq, zero_mul, inContext_zero, zero_mul]
  · have hleading := leading_guess hq
    revert hleading
    generalize (if |q| < (10 : ℚ) ^ ((Nat.log 10 q.num.natAbs : ℤ) - Nat.log 10 q.den) then _ else _) =
      exponent
    intro hleading
    have hten : (10 : ℚ) ≠ 0 := by norm_num
    rw [inContext_of_leading hleading, inContext_of_leading (hleading.mul_zpow k)]
    have hscaled : q * (10 : ℚ) ^ k * 10 ^ ((contextDigits : ℤ) - 1 - (exponent + k)) =
        q * 10 ^ ((contextDigits : ℤ) - 1 - exponent) := by
      rw [mul_assoc, ← zpow_add₀ hten]
      congr 2
      ring
    have hshift : (10 : ℚ) ^ ((contextDigits : ℤ) - 1 - exponent) =
        10 ^ ((contextDigits : ℤ) - 1 - (exponent + k)) * 10 ^ k := by
      rw [← zpow_add₀ hten]
      congr 1
      ring
    rw [hscaled, hshift]
    have hpos : (10 : ℚ) ^ k ≠ 0 := zpow_ne_zero k hten
    field_simp

/-- A rounding to the context's digits is nearest first of all on the same side of zero. -/
theorem inContext_pos {q : ℚ} (h : 0 < q) : 0 < inContext q := by
  have hleading := leading_guess h.ne'
  revert hleading
  generalize (if |q| < (10 : ℚ) ^ ((Nat.log 10 q.num.natAbs : ℤ) - Nat.log 10 q.den) then _ else _) =
    exponent
  intro hleading
  have hten : (10 : ℚ) ≠ 0 := by norm_num
  have hscale : (0 : ℚ) < 10 ^ ((contextDigits : ℤ) - 1 - exponent) := zpow_pos (by norm_num) _
  -- scaled, the leading digit stands before the point
  have hone : ((1 : ℤ) : ℚ) ≤ q * 10 ^ ((contextDigits : ℤ) - 1 - exponent) := by
    have hle := hleading.le
    rw [abs_of_pos h] at hle
    calc ((1 : ℤ) : ℚ) ≤ (10 : ℚ) ^ ((contextDigits : ℤ) - 1) := by norm_num [contextDigits]
      _ = 10 ^ exponent * 10 ^ ((contextDigits : ℤ) - 1 - exponent) := by
          rw [← zpow_add₀ hten]
          congr 1
          ring
      _ ≤ q * 10 ^ ((contextDigits : ℤ) - 1 - exponent) := mul_le_mul_of_nonneg_right hle hscale.le
  have hround : (1 : ℤ) ≤ roundHalfEven (q * 10 ^ ((contextDigits : ℤ) - 1 - exponent)) :=
    le_roundHalfEven hone
  rw [inContext_of_leading hleading]
  refine div_pos ?_ hscale
  exact_mod_cast Int.lt_of_lt_of_le Int.one_pos hround

/-- Rounding keeps a number's sign. -/
theorem inContext_nonpos {q : ℚ} (h : q ≤ 0) : inContext q ≤ 0 := by
  have hround (scale : ℤ) : (roundHalfEven (q * 10 ^ scale) : ℚ) / 10 ^ scale ≤ 0 := by
    have hscale : (0 : ℚ) < 10 ^ scale := zpow_pos (by norm_num) _
    have hscaled : q * 10 ^ scale ≤ ((0 : ℤ) : ℚ) := by
      simpa using mul_nonpos_of_nonpos_of_nonneg h hscale.le
    refine div_nonpos_of_nonpos_of_nonneg ?_ hscale.le
    exact_mod_cast roundHalfEven_le hscaled
  exact hround _

/-- A rounding to the context's digits keeps the sign. -/
theorem inContext_pos_iff {q : ℚ} : 0 < inContext q ↔ 0 < q := by
  constructor
  · intro h
    by_contra hnot
    exact absurd (inContext_nonpos (not_lt.mp hnot)) (not_le.mpr h)
  · exact inContext_pos

/-- An integer with no more digits than the context holds is left as it is. -/
theorem inContext_intCast {m : ℤ} (h : |m| ≤ 10 ^ contextDigits) : inContext m = m := by
  by_cases hm : (m : ℚ) = 0
  · rw [hm, inContext_zero]
  · have hleading := leading_guess hm
    revert hleading
    generalize (if |(m : ℚ)| < (10 : ℚ) ^ ((Nat.log 10 (m : ℚ).num.natAbs : ℤ) -
      Nat.log 10 (m : ℚ).den) then _ else _) = exponent
    intro hleading
    have hten : (10 : ℚ) ≠ 0 := by norm_num
    have hle : |(m : ℚ)| ≤ (10 : ℚ) ^ (contextDigits : ℤ) := by
      rw [zpow_natCast]
      exact_mod_cast h
    have hexponent : exponent ≤ contextDigits :=
      (zpow_le_zpow_iff_right₀ (by norm_num : (1 : ℚ) < 10)).mp (hleading.le.trans hle)
    -- scaled to the context's digits it is still an integer
    have hwhole : ∃ n : ℤ, (m : ℚ) * 10 ^ ((contextDigits : ℤ) - 1 - exponent) = n := by
      by_cases hsmall : exponent < contextDigits
      · obtain ⟨k, hk⟩ := Int.eq_ofNat_of_zero_le (by omega : 0 ≤ (contextDigits : ℤ) - 1 - exponent)
        refine ⟨m * 10 ^ k, ?_⟩
        rw [hk]
        push_cast
        rw [zpow_natCast]
      · have heq : exponent = contextDigits := by omega
        rw [heq] at hleading ⊢
        have habs : |(m : ℚ)| = (10 : ℚ) ^ (contextDigits : ℤ) := le_antisymm hle hleading.le
        have hscale : (10 : ℚ) ^ (contextDigits : ℤ) * 10 ^ ((contextDigits : ℤ) - 1 - contextDigits) =
            ((10 ^ (contextDigits - 1) : ℤ) : ℚ) := by
          norm_num [contextDigits]
        rcases abs_choice (m : ℚ) with hpos | hneg
        · refine ⟨10 ^ (contextDigits - 1), ?_⟩
          rw [← hscale, ← habs, hpos]
        · refine ⟨-10 ^ (contextDigits - 1), ?_⟩
          rw [Int.cast_neg, ← hscale, ← habs, hneg, neg_mul, neg_neg]
    obtain ⟨n, hn⟩ := hwhole
    rw [inContext_of_leading hleading, hn, roundHalfEven_intCast, ← hn,
      mul_div_cancel_right₀ _ (zpow_ne_zero _ hten)]

/-- A decimal with no more digits than the context holds is left as it is. -/
theorem inContext_of_digits {m : ℤ} (h : |m| ≤ 10 ^ contextDigits) (k : ℤ) :
    inContext (m * 10 ^ k) = m * 10 ^ k := by
  rw [inContext_mul_zpow, inContext_intCast h]

/-- A second rounding changes nothing. -/
theorem inContext_inContext (q : ℚ) : inContext (inContext q) = inContext q := by
  by_cases hq : q = 0
  · rw [hq, inContext_zero, inContext_zero]
  · have hleading := leading_guess hq
    revert hleading
    generalize (if |q| < (10 : ℚ) ^ ((Nat.log 10 q.num.natAbs : ℤ) - Nat.log 10 q.den) then _ else _) =
      exponent
    intro hleading
    have hten : (10 : ℚ) ≠ 0 := by norm_num
    have hscale : (0 : ℚ) < 10 ^ ((contextDigits : ℤ) - 1 - exponent) := zpow_pos (by norm_num) _
    have habs : |q * 10 ^ ((contextDigits : ℤ) - 1 - exponent)| ≤ ((10 ^ contextDigits : ℤ) : ℚ) := by
      rw [abs_mul, abs_of_pos hscale]
      calc |q| * (10 : ℚ) ^ ((contextDigits : ℤ) - 1 - exponent)
          ≤ 10 ^ (exponent + 1) * 10 ^ ((contextDigits : ℤ) - 1 - exponent) :=
            mul_le_mul_of_nonneg_right hleading.lt.le hscale.le
        _ = ((10 ^ contextDigits : ℤ) : ℚ) := by
            rw [← zpow_add₀ hten]
            push_cast
            rw [← zpow_natCast]
            congr 1
            ring
    obtain ⟨hlow, hhigh⟩ := abs_le.mp habs
    have hdigits : |roundHalfEven (q * 10 ^ ((contextDigits : ℤ) - 1 - exponent))| ≤
        10 ^ contextDigits := by
      refine abs_le.mpr ⟨le_roundHalfEven ?_, roundHalfEven_le hhigh⟩
      rw [Int.cast_neg]
      exact hlow
    have hform : inContext q = roundHalfEven (q * 10 ^ ((contextDigits : ℤ) - 1 - exponent)) *
        (10 : ℚ) ^ (-((contextDigits : ℤ) - 1 - exponent)) := by
      rw [inContext_of_leading hleading, zpow_neg, div_eq_mul_inv]
    rw [hform]
    exact inContext_of_digits hdigits _

end Common
