import Mathlib.Data.List.MinMax
import Mathlib.Data.List.Sort
import Mathlib.Data.Prod.Lex

/-!
# Sorting by a key

`sortOn` is the stable sort by a key. A sort is stable when each class of equal keys keeps its
order, and the order of those classes is all a sort leaves open: two lists whose classes agree sort
alike (`sortOn_congr`). With distinct keys every permutation of a list sorts alike
(`sortOn_eq_of_perm`). `latest` and `earliest` are the first element
with the greatest and the least key.
-/

namespace Common

variable {α β : Type*} [LinearOrder β]

/-- `xs` sorted by `key`, elements of equal keys in their order in `xs`. -/
def sortOn (key : α → β) (xs : List α) : List α := xs.insertionSort (fun a b => key a ≤ key b)

/-- The first of the elements with the greatest key, if there is any. -/
def latest (key : α → β) (xs : List α) : Option α := xs.argmax key

/-- The first of the elements with the least key, if there is any. -/
def earliest (key : α → β) (xs : List α) : Option α := xs.argmin key

/-- Sorting permutes. -/
theorem sortOn_perm (key : α → β) (xs : List α) : (sortOn key xs).Perm xs :=
  List.perm_insertionSort _ xs

@[simp] theorem mem_sortOn {key : α → β} {xs : List α} {x : α} : x ∈ sortOn key xs ↔ x ∈ xs :=
  (sortOn_perm key xs).mem_iff

/-- What is sorted ascends. -/
theorem sortOn_pairwise (key : α → β) (xs : List α) :
    (sortOn key xs).Pairwise (fun a b => key a ≤ key b) := by
  have : Std.Total (fun a b : α => key a ≤ key b) := ⟨fun a b => le_total (key a) (key b)⟩
  have : IsTrans α (fun a b => key a ≤ key b) := ⟨fun _ _ _ => le_trans⟩
  exact List.pairwise_insertionSort _ xs

/-- Inserting an element puts it before the others of its key. -/
theorem filter_orderedInsert (key : α → β) (a : α) (xs : List α) (k : β) :
    (xs.orderedInsert (fun a b => key a ≤ key b) a).filter (fun x => key x = k) =
      (a :: xs).filter (fun x => key x = k) := by
  induction xs with
  | nil => rfl
  | cons b rest ih =>
    rw [List.orderedInsert_cons]
    split
    · rfl
    · rename_i hlt
      -- Here `b` sorts strictly before `a`, so they are not of one key.
      have hne : key a ≠ key b := fun h => hlt (le_of_eq h)
      by_cases hb : key b = k
      · have ha : key a ≠ k := fun h => hne (h.trans hb.symm)
        simp [hb, ha, ih]
      · simp [List.filter_cons, hb, ih]

/-- A sort keeps the order within each class of equal keys. -/
theorem filter_sortOn (key : α → β) (xs : List α) (k : β) :
    (sortOn key xs).filter (fun x => key x = k) = xs.filter (fun x => key x = k) := by
  induction xs with
  | nil => rfl
  | cons a rest ih =>
    show ((rest.insertionSort _).orderedInsert _ a).filter _ = _
    rw [filter_orderedInsert, List.filter_cons, List.filter_cons]
    split
    · exact congrArg (a :: ·) ih
    · exact ih

/-- A sorted list is determined by its classes of equal keys. -/
theorem eq_of_filter_eq {key : α → β} {xs ys : List α}
    (hx : xs.Pairwise (fun a b => key a ≤ key b)) (hy : ys.Pairwise (fun a b => key a ≤ key b))
    (h : ∀ k, xs.filter (fun x => key x = k) = ys.filter (fun x => key x = k)) : xs = ys := by
  induction xs generalizing ys with
  | nil =>
    cases ys with
    | nil => rfl
    | cons b ys => simpa using h (key b)
  | cons a xs ih =>
    cases ys with
    | nil => simpa using h (key a)
    | cons b ys =>
      have hamem : a ∈ b :: ys := by
        have : a ∈ (b :: ys).filter (fun x => key x = key a) := by rw [← h (key a)]; simp
        exact List.mem_of_mem_filter this
      have hbmem : b ∈ a :: xs := by
        have : b ∈ (a :: xs).filter (fun x => key x = key b) := by rw [h (key b)]; simp
        exact List.mem_of_mem_filter this
      have hba : key b ≤ key a := by
        rcases List.mem_cons.mp hamem with rfl | hm
        · exact le_rfl
        · exact (List.pairwise_cons.mp hy).1 a hm
      have hab : key a ≤ key b := by
        rcases List.mem_cons.mp hbmem with rfl | hm
        · exact le_rfl
        · exact (List.pairwise_cons.mp hx).1 b hm
      have hk : key b = key a := le_antisymm hba hab
      have hhead : a = b := by
        have := h (key a)
        simp only [List.filter_cons, hk, decide_true, if_true, List.cons.injEq] at this
        exact this.1
      subst hhead
      refine congrArg (a :: ·) (ih (List.pairwise_cons.mp hx).2 (List.pairwise_cons.mp hy).2 ?_)
      intro k
      have := h k
      simp only [List.filter_cons] at this
      split at this
      · exact (List.cons.inj this).2
      · exact this

/-- Two lists whose classes of equal keys agree sort alike. -/
theorem sortOn_congr {key : α → β} {xs ys : List α}
    (h : ∀ k, xs.filter (fun x => key x = k) = ys.filter (fun x => key x = k)) :
    sortOn key xs = sortOn key ys := by
  refine eq_of_filter_eq (sortOn_pairwise key xs) (sortOn_pairwise key ys) fun k => ?_
  rw [filter_sortOn, filter_sortOn, h k]

/-- Elements may be picked out before a sort or after it. -/
theorem filter_sortOn_comm (key : α → β) (p : α → Bool) (xs : List α) :
    (sortOn key xs).filter p = sortOn key (xs.filter p) := by
  refine eq_of_filter_eq ((sortOn_pairwise key xs).filter _) (sortOn_pairwise key _) fun k => ?_
  rw [filter_sortOn, List.filter_comm, filter_sortOn, List.filter_comm]

/-- A permutation of a list whose keys are distinct sorts alike. -/
theorem sortOn_eq_of_perm {key : α → β} {xs ys : List α} (hp : xs.Perm ys)
    (hinj : ∀ a ∈ xs, ∀ b ∈ xs, key a = key b → a = b) : sortOn key xs = sortOn key ys := by
  refine List.Perm.eq_of_pairwise ?_ (sortOn_pairwise key xs) (sortOn_pairwise key ys)
    ((sortOn_perm key xs).trans (hp.trans (sortOn_perm key ys).symm))
  intro a b ha hb hab hba
  exact hinj a (mem_sortOn.mp ha) b (hp.mem_iff.mpr (mem_sortOn.mp hb)) (le_antisymm hab hba)

/-- The second part of a list, if its keys are distinct, may be permuted before a sort. -/
theorem sortOn_append_congr {key : α → β} {xs ys zs : List α} (hp : ys.Perm zs)
    (hinj : ∀ a ∈ ys, ∀ b ∈ ys, key a = key b → a = b) :
    sortOn key (xs ++ ys) = sortOn key (xs ++ zs) := by
  refine sortOn_congr fun k => ?_
  rw [List.filter_append, List.filter_append]
  congr 1
  -- The elements of one key are all one element, which any order sorts.
  have hany (l : List α) : l.Pairwise fun _ _ => True := List.pairwise_of_forall fun _ _ => trivial
  refine List.Perm.eq_of_pairwise ?_ (hany _) (hany _) (hp.filter _)
  intro a b ha hb _ _
  obtain ⟨ha, hakey⟩ := List.mem_filter.mp ha
  obtain ⟨hb, hbkey⟩ := List.mem_filter.mp hb
  exact hinj a ha b (hp.mem_iff.mpr hb) ((of_decide_eq_true hakey).trans (of_decide_eq_true hbkey).symm)

end Common
