import Mathlib.Data.List.Basic
import NautilusCtrader.VenueRecords

/-!
# The ids of legs

A leg's venue order id names its entry, its level and its generation, so different legs have
different ids, and none is a broker order's own id. The dash after the entry's id tells the two apart.
-/

namespace NautilusCtrader

/-- Whether a venue order id is written as a leg's: a dash follows the entry's id. A broker order's
own id is a number. -/
def isLegId (venueOrderId : String) : Bool := '-' ∈ venueOrderId.toList.tail

/-- A number is written without a dash. -/
theorem dash_notMem_repr (n : ℕ) : '-' ∉ n.repr.toList := by
  rw [Nat.toList_repr]
  intro h
  have hdigit := Nat.isDigit_of_mem_toDigits (by norm_num) (by norm_num) h
  exact absurd hdigit (by decide)

/-- Two numbers are written differently. -/
theorem natRepr_injective {m n : ℕ} (h : m.repr.toList = n.repr.toList) : m = n := by
  rw [Nat.toList_repr, Nat.toList_repr] at h
  simpa using congrArg (fun digits => Nat.ofDigitChars 10 digits 0) h

/-- So are two integers. -/
theorem intRepr_injective {m n : ℤ} (h : m.repr.toList = n.repr.toList) : m = n := by
  rw [Int.repr_eq_if, Int.repr_eq_if] at h
  split at h <;> split at h
  · have := natRepr_injective h
    omega
  · exact absurd (h ▸ by simp) (dash_notMem_repr m.toNat)
  · exact absurd (h ▸ by simp) (dash_notMem_repr n.toNat)
  · rw [String.toList_append, String.toList_append] at h
    have := natRepr_injective (List.append_cancel_left h)
    omega

/-- A number is written as one character and then none that is a dash. -/
theorem toList_toString (n : ℤ) :
    ∃ first rest, (toString n).toList = first :: rest ∧ '-' ∉ rest := by
  rw [Int.toString_eq_repr, Int.repr_eq_if]
  split
  · have hdash := dash_notMem_repr n.toNat
    cases h : n.toNat.repr.toList with
    | nil => exact absurd h (by rw [Nat.toList_repr]; exact Nat.toDigits_ne_nil)
    | cons first rest =>
      rw [h, List.mem_cons, not_or] at hdash
      exact ⟨first, rest, rfl, hdash.2⟩
  · exact ⟨'-', (-n).toNat.repr.toList, by rw [String.toList_append]; rfl, dash_notMem_repr _⟩

/-- A broker order's id is no leg's. -/
theorem isLegId_orderId (orderId : ℤ) : isLegId (toString orderId) = false := by
  obtain ⟨first, rest, h, hdash⟩ := toList_toString orderId
  unfold isLegId
  rw [h, List.tail_cons, decide_eq_false_iff_not]
  exact hdash

/-- What is read as a leg's id is written as one. -/
theorem isLegId_of_parse {text : String} {found : ℤ × Level × ℕ+}
    (h : parseLegVenueOrderId text = some found) : isLegId text = true := by
  have hdash {entry : List Char} {rest : List (List Char)} {n : ℕ}
      (hsplit : text.toList.splitOn '-' = entry :: rest) (hrest : rest ≠ [])
      (hentry : plainNumber entry = some n) : isLegId text = true := by
    have htext : ['-'].intercalate (text.toList.splitOn '-') = text.toList :=
      List.intercalate_splitOn '-'
    rw [hsplit] at htext
    cases entry with
    | nil => cases hentry
    | cons first others =>
      obtain ⟨second, rest, rfl⟩ := List.exists_cons_of_ne_nil hrest
      unfold isLegId
      rw [← htext, List.intercalate_cons_cons, decide_eq_true_iff]
      simp
  unfold parseLegVenueOrderId at h
  split at h
  · rename_i entry level hsplit
    cases hentry : plainNumber entry with
    | none =>
      rw [hentry] at h
      cases h
    | some n => exact hdash hsplit (List.cons_ne_nil _ _) hentry
  · rename_i entry level generation hsplit
    cases hentry : plainNumber entry with
    | none =>
      rw [hentry] at h
      cases h
    | some n => exact hdash hsplit (List.cons_ne_nil _ _) hentry
  · cases h

/-- What follows the entry's id and the dash in a leg's id. -/
def legIdTail (level : Level) (generation : ℕ+) : List Char :=
  level.value.toList ++ (if generation = firstGeneration then [] else '-' :: (generation : ℕ).repr.toList)

/-- A leg's id is its entry's, a dash and the rest. -/
theorem toList_legVenueOrderId (entryOrderId : ℤ) (level : Level) (generation : ℕ+) :
    (legVenueOrderId entryOrderId level generation).toList =
      (toString entryOrderId).toList ++ '-' :: legIdTail level generation := by
  unfold legVenueOrderId legIdTail
  split <;> simp only [String.toList_append, List.append_assoc] <;> rfl

/-- A leg's id is recognised as one. -/
theorem isLegId_legVenueOrderId (entryOrderId : ℤ) (level : Level) (generation : ℕ+) :
    isLegId (legVenueOrderId entryOrderId level generation) = true := by
  obtain ⟨first, rest, h, -⟩ := toList_toString entryOrderId
  unfold isLegId
  rw [toList_legVenueOrderId, h, List.cons_append, List.tail_cons, decide_eq_true_iff]
  exact List.mem_append_right _ List.mem_cons_self

/-- The rest tells the level and the generation. -/
theorem legIdTail_injective {level level' : Level} {generation generation' : ℕ+}
    (h : legIdTail level generation = legIdTail level' generation') :
    level = level' ∧ generation = generation' := by
  have hlevel : level = level' := by
    cases level <;> cases level' <;> simp [legIdTail, Level.value] at h ⊢
  subst hlevel
  refine ⟨rfl, ?_⟩
  have hsuffix := List.append_cancel_left h
  split at hsuffix <;> split at hsuffix
  · simp_all
  · cases hsuffix
  · cases hsuffix
  · rw [List.cons.injEq] at hsuffix
    exact PNat.eq (natRepr_injective hsuffix.2)

/-- Legs with the same id have the same entry, level and generation. -/
theorem legVenueOrderId_injective {entryOrderId entryOrderId' : ℤ} {level level' : Level}
    {generation generation' : ℕ+}
    (h : legVenueOrderId entryOrderId level generation =
      legVenueOrderId entryOrderId' level' generation') :
    entryOrderId = entryOrderId' ∧ level = level' ∧ generation = generation' := by
  have hlist := congrArg String.toList h
  rw [toList_legVenueOrderId, toList_legVenueOrderId] at hlist
  obtain ⟨first, rest, hn, hdash⟩ := toList_toString entryOrderId
  obtain ⟨first', rest', hn', hdash'⟩ := toList_toString entryOrderId'
  rw [hn, hn', List.cons_append, List.cons_append, List.cons.injEq] at hlist
  have hparts := (List.append_eq_append_iff.mp hlist.2)
  have hrest : rest = rest' ∧ legIdTail level generation = legIdTail level' generation' := by
    rcases hparts with ⟨mid, hmid, htail⟩ | ⟨mid, hmid, htail⟩
    · cases mid with
      | nil =>
        simp only [List.append_nil] at hmid
        simp only [List.nil_append, List.cons.injEq, true_and] at htail
        exact ⟨hmid.symm, htail⟩
      | cons c mid =>
        rw [List.cons_append, List.cons.injEq] at htail
        exact absurd (by rw [hmid, ← htail.1]; simp) hdash'
    · cases mid with
      | nil =>
        simp only [List.append_nil] at hmid
        simp only [List.nil_append, List.cons.injEq, true_and] at htail
        exact ⟨hmid, htail.symm⟩
      | cons c mid =>
        rw [List.cons_append, List.cons.injEq] at htail
        exact absurd (by rw [hmid, ← htail.1]; simp) hdash
  have hentry : (toString entryOrderId).toList = (toString entryOrderId').toList := by
    rw [hn, hn', hlist.1, hrest.1]
  refine ⟨?_, legIdTail_injective hrest.2⟩
  rw [Int.toString_eq_repr, Int.toString_eq_repr] at hentry
  exact intRepr_injective hentry

end NautilusCtrader
