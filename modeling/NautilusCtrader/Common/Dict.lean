import Mathlib.Data.List.Nodup
import Mathlib.Tactic.Tauto

/-!
# Insertion-ordered dictionaries

A dictionary is a list of entries with pairwise distinct keys, held as a field. Setting a key that
is present replaces its value in place, and setting a new key appends an entry, so iteration goes
over the keys in the order they were first set.

`mapAccum` is the loop that updates every value in turn and collects what each step emits.
-/

namespace Common

/-- A finite map that iterates in insertion order. -/
structure Dict (κ α : Type) where
  entries : List (κ × α)
  nodup : (entries.map Prod.fst).Nodup
deriving DecidableEq

namespace Dict

variable {κ α β ρ : Type}

/-- The dictionary with no entry. -/
def empty : Dict κ α := ⟨[], List.nodup_nil⟩

instance : Inhabited (Dict κ α) := ⟨empty⟩

def keys (d : Dict κ α) : List κ := d.entries.map Prod.fst

def values (d : Dict κ α) : List α := d.entries.map Prod.snd

variable [DecidableEq κ]

omit [DecidableEq κ] in
/-- A dictionary is its entries. -/
theorem ext_entries {d d' : Dict κ α} (h : d.entries = d'.entries) : d = d' := by
  cases d
  cases d'
  cases h
  rfl

/-- The value of the first entry under `k`. -/
def lookup (k : κ) : List (κ × α) → Option α
  | [] => none
  | (k', a) :: rest => if k' = k then some a else lookup k rest

/-- `entries` with `k` set to `a`: in place when `k` is there, else at the end. -/
def setEntry (k : κ) (a : α) : List (κ × α) → List (κ × α)
  | [] => [(k, a)]
  | (k', a') :: rest => if k' = k then (k, a) :: rest else (k', a') :: setEntry k a rest

/-- Apply `f` to every entry in order, keeping the keys and concatenating what `f` emits. -/
def mapAccumEntries (f : κ → α → β × List ρ) : List (κ × α) → List (κ × β) × List ρ
  | [] => ([], [])
  | (k, a) :: rest =>
    let step := f k a
    let tail := mapAccumEntries f rest
    ((k, step.1) :: tail.1, step.2 ++ tail.2)

/-- A key that is set is there, and so are the others. -/
theorem mem_keys_setEntry {k : κ} {a : α} {l : List (κ × α)} {x : κ} :
    x ∈ (setEntry k a l).map Prod.fst ↔ x = k ∨ x ∈ l.map Prod.fst := by
  induction l with
  | nil => simp [setEntry]
  | cons e rest ih =>
    obtain ⟨k', a'⟩ := e
    by_cases h : k' = k
    · subst h
      simp [setEntry]
    · simp only [setEntry, if_neg h, List.map_cons, List.mem_cons, ih]
      tauto

/-- Setting a key does not repeat it. -/
theorem nodup_setEntry {k : κ} {a : α} {l : List (κ × α)} (h : (l.map Prod.fst).Nodup) :
    ((setEntry k a l).map Prod.fst).Nodup := by
  induction l with
  | nil => simp [setEntry]
  | cons e rest ih =>
    obtain ⟨k', a'⟩ := e
    rw [List.map_cons, List.nodup_cons] at h
    by_cases hk : k' = k
    · subst hk
      simpa [setEntry] using h
    · simp only [setEntry, if_neg hk, List.map_cons, List.nodup_cons, mem_keys_setEntry]
      exact ⟨by simpa [hk] using h.1, ih h.2⟩

omit [DecidableEq κ] in
/-- The keys stay as they are. -/
theorem mapAccumEntries_keys (f : κ → α → β × List ρ) (l : List (κ × α)) :
    (mapAccumEntries f l).1.map Prod.fst = l.map Prod.fst := by
  induction l with
  | nil => rfl
  | cons e rest ih => simp [mapAccumEntries, ih]

/-- The value held under `k`, if any. -/
def get? (d : Dict κ α) (k : κ) : Option α := lookup k d.entries

/-- `d` with `k` set to `a`. -/
def set (d : Dict κ α) (k : κ) (a : α) : Dict κ α := ⟨setEntry k a d.entries, nodup_setEntry d.nodup⟩

/-- `d` without the entry of `k`. -/
def erase (d : Dict κ α) (k : κ) : Dict κ α :=
  ⟨d.entries.filter (fun e => e.1 ≠ k),
    (List.filter_sublist.map Prod.fst).nodup d.nodup⟩

/-- Update every value in order, collecting what each update emits. -/
def mapAccum (f : κ → α → β × List ρ) (d : Dict κ α) : Dict κ β × List ρ :=
  let out := mapAccumEntries f d.entries
  (⟨out.1, by rw [mapAccumEntries_keys]; exact d.nodup⟩, out.2)

/-- Whether `k` has an entry. -/
def contains (d : Dict κ α) (k : κ) : Bool := (d.get? k).isSome

/-- `d` with `k` set to `a` unless it has a value. -/
def setDefault (d : Dict κ α) (k : κ) (a : α) : Dict κ α := if d.contains k then d else d.set k a

@[simp] theorem get?_empty (k : κ) : (empty : Dict κ α).get? k = none := rfl

/-- What is found after an entry is set. -/
theorem lookup_setEntry (k : κ) (a : α) (l : List (κ × α)) (x : κ) :
    lookup x (setEntry k a l) = if k = x then some a else lookup x l := by
  induction l with
  | nil => simp [setEntry, lookup]
  | cons e rest ih =>
    obtain ⟨k', a'⟩ := e
    by_cases hk : k' = k
    · subst hk
      by_cases hx : k' = x <;> simp [setEntry, lookup, hx]
    · by_cases hx : k' = x
      · subst hx
        simp [setEntry, lookup, hk, Ne.symm hk]
      · simp [setEntry, lookup, hk, hx, ih]

/-- What is found after a key is set. -/
theorem get?_set (d : Dict κ α) (k : κ) (a : α) (x : κ) :
    (d.set k a).get? x = if k = x then some a else d.get? x :=
  lookup_setEntry k a d.entries x

@[simp] theorem get?_set_self (d : Dict κ α) (k : κ) (a : α) : (d.set k a).get? k = some a := by
  rw [get?_set, if_pos rfl]

/-- Another key is found as before. -/
theorem get?_set_of_ne (d : Dict κ α) {k x : κ} (a : α) (h : k ≠ x) :
    (d.set k a).get? x = d.get? x := by
  rw [get?_set, if_neg h]

/-- What is found is what was set, or was there under another key. -/
theorem get?_set_eq_some {d : Dict κ α} {k x : κ} {a b : α} :
    (d.set k a).get? x = some b ↔ k = x ∧ a = b ∨ k ≠ x ∧ d.get? x = some b := by
  rw [get?_set]
  split
  case isTrue heq => simp [heq]
  case isFalse hne => simp [hne]

/-- What holds of every entry still does once one it holds of is set. -/
theorem forall_set {P : κ → α → Prop} {d : Dict κ α} (h : ∀ x b, d.get? x = some b → P x b) {k : κ}
    {a : α} (ha : P k a) (x : κ) (b : α) (hget : (d.set k a).get? x = some b) : P x b := by
  rcases get?_set_eq_some.mp hget with ⟨rfl, rfl⟩ | ⟨-, hold⟩
  · exact ha
  · exact h x b hold

/-- A key that is there keeps its value. -/
theorem get?_setDefault (d : Dict κ α) (k : κ) (a : α) (x : κ) :
    (d.setDefault k a).get? x = if k = x then some ((d.get? x).getD a) else d.get? x := by
  unfold setDefault contains
  cases hk : d.get? k with
  | none =>
    rw [Option.isSome_none, if_neg (by simp), get?_set]
    split
    case isTrue hx => rw [← hx, hk, Option.getD_none]
    case isFalse => rfl
  | some b =>
    rw [Option.isSome_some, if_pos rfl]
    split
    case isTrue hx => rw [← hx, hk, Option.getD_some]
    case isFalse => rfl

/-- What is found after a key's entries are taken out. -/
theorem lookup_filter_ne (k : κ) (l : List (κ × α)) (x : κ) :
    lookup x (l.filter (fun e => e.1 ≠ k)) = if x = k then none else lookup x l := by
  induction l with
  | nil => simp [lookup]
  | cons e rest ih =>
    obtain ⟨k', a'⟩ := e
    by_cases hk : k' = k
    · subst hk
      by_cases hx : x = k'
      · subst hx
        simpa [List.filter_cons] using ih
      · simpa [List.filter_cons, lookup, hx, Ne.symm hx] using ih
    · by_cases hx : k' = x
      · subst hx
        simp [lookup, hk]
      · simpa [List.filter_cons, lookup, hk, hx] using ih

/-- What is found after a key is erased. -/
theorem get?_erase (d : Dict κ α) (k x : κ) :
    (d.erase k).get? x = if x = k then none else d.get? x :=
  lookup_filter_ne k d.entries x

@[simp] theorem get?_erase_self (d : Dict κ α) (k : κ) : (d.erase k).get? k = none := by
  rw [get?_erase, if_pos rfl]

/-- What is found after an erase was there under another key. -/
theorem get?_erase_eq_some {d : Dict κ α} {k x : κ} {b : α} :
    (d.erase k).get? x = some b ↔ x ≠ k ∧ d.get? x = some b := by
  rw [get?_erase]
  split
  case isTrue heq => simp [heq]
  case isFalse hne => simp [hne]

/-- What holds of all entries holds of those left. -/
theorem forall_erase {P : κ → α → Prop} {d : Dict κ α} (h : ∀ x b, d.get? x = some b → P x b)
    (k x : κ) (b : α) (hget : (d.erase k).get? x = some b) : P x b :=
  h x b (get?_erase_eq_some.mp hget).2

/-- An entry is found mapped. -/
theorem lookup_mapAccumEntries (f : κ → α → β × List ρ) (l : List (κ × α)) (x : κ) :
    lookup x (mapAccumEntries f l).1 = (lookup x l).map (fun a => (f x a).1) := by
  induction l with
  | nil => rfl
  | cons e rest ih =>
    obtain ⟨k, a⟩ := e
    by_cases hk : k = x
    · subst hk
      simp [mapAccumEntries, lookup]
    · simp [mapAccumEntries, lookup, hk, ih]

/-- A key is found mapped. -/
@[simp] theorem get?_mapAccum (f : κ → α → β × List ρ) (d : Dict κ α) (x : κ) :
    (d.mapAccum f).1.get? x = (d.get? x).map (fun a => (f x a).1) :=
  lookup_mapAccumEntries f d.entries x

omit [DecidableEq κ] in
/-- What a `mapAccum` emits, entry by entry. -/
theorem mapAccum_emitted (f : κ → α → β × List ρ) (d : Dict κ α) :
    (d.mapAccum f).2 = d.entries.flatMap (fun e => (f e.1 e.2).2) := by
  show (mapAccumEntries f d.entries).2 = _
  induction d.entries with
  | nil => rfl
  | cons e rest ih => simp [mapAccumEntries, ih]

/-- Without repeated keys, an entry is found just if it is there. -/
theorem lookup_eq_some {l : List (κ × α)} (h : (l.map Prod.fst).Nodup) {k : κ} {a : α} :
    lookup k l = some a ↔ (k, a) ∈ l := by
  induction l with
  | nil => simp [lookup]
  | cons e rest ih =>
    obtain ⟨k', a'⟩ := e
    rw [List.map_cons, List.nodup_cons] at h
    by_cases hk : k' = k
    · subst hk
      have hrest : (k', a) ∉ rest := fun hm => h.1 (List.mem_map.mpr ⟨(k', a), hm, rfl⟩)
      simp only [lookup, if_true, Option.some.injEq, List.mem_cons, Prod.mk.injEq, true_and]
      constructor
      · rintro rfl
        exact Or.inl rfl
      · rintro (rfl | hm)
        · rfl
        · exact absurd hm hrest
    · simp only [lookup, if_neg hk, ih h.2, List.mem_cons, Prod.mk.injEq]
      constructor
      · exact Or.inr
      · rintro (⟨rfl, -⟩ | hm)
        · exact absurd rfl hk
        · exact hm

/-- A lookup finds exactly the entry of its key. -/
theorem get?_eq_some {d : Dict κ α} {k : κ} {a : α} : d.get? k = some a ↔ (k, a) ∈ d.entries :=
  lookup_eq_some d.nodup

/-- A value is there under some key. -/
theorem mem_values {d : Dict κ α} {a : α} : a ∈ d.values ↔ ∃ k, d.get? k = some a := by
  simp [values, get?_eq_some]

/-- What is read off the entries of two dictionaries that agree on it is the same, in some order. -/
theorem map_entries_perm {d d' : Dict κ α} {f : α → β}
    (h : ∀ k, (d.get? k).map f = (d'.get? k).map f) :
    (d.entries.map fun entry => (entry.1, f entry.2)).Perm
      (d'.entries.map fun entry => (entry.1, f entry.2)) := by
  have hnodup (d : Dict κ α) : (d.entries.map fun entry => (entry.1, f entry.2)).Nodup := by
    apply List.Nodup.of_map Prod.fst
    rw [List.map_map]
    exact d.nodup
  have hmem (d : Dict κ α) (k : κ) (b : β) :
      (k, b) ∈ d.entries.map (fun entry => (entry.1, f entry.2)) ↔ (d.get? k).map f = some b := by
    rw [List.mem_map, Option.map_eq_some_iff]
    constructor
    · rintro ⟨entry, hentry, heq⟩
      obtain ⟨rfl, rfl⟩ := Prod.mk.inj heq
      exact ⟨entry.2, get?_eq_some.mpr hentry, rfl⟩
    · rintro ⟨a, ha, rfl⟩
      exact ⟨(k, a), get?_eq_some.mp ha, rfl⟩
  refine (List.perm_ext_iff_of_nodup (hnodup d) (hnodup d')).mpr ?_
  rintro ⟨k, b⟩
  rw [hmem, hmem, h]

/-- Two dictionaries that hold the same have the same keys, in some order. -/
theorem keys_perm {d d' : Dict κ α} (h : ∀ k, d.get? k = d'.get? k) : d.keys.Perm d'.keys := by
  have hentries := (map_entries_perm (f := id) fun k => congrArg _ (h k)).map Prod.fst
  rwa [List.map_map, List.map_map] at hentries

/-- A key is there just if something is found under it. -/
theorem contains_eq_true {d : Dict κ α} {k : κ} : d.contains k = true ↔ ∃ a, d.get? k = some a := by
  simp [contains, Option.isSome_iff_exists]

/-- A key that is not among the first entries is set among the others. -/
theorem setEntry_append {k : κ} {a : α} {l l' : List (κ × α)} (h : k ∉ l.map Prod.fst) :
    setEntry k a (l ++ l') = l ++ setEntry k a l' := by
  induction l with
  | nil => rfl
  | cons e rest ih =>
    obtain ⟨k', a'⟩ := e
    rw [List.map_cons, List.mem_cons, not_or] at h
    rw [List.cons_append, setEntry, if_neg (Ne.symm h.1), ih h.2, List.cons_append]

/-- Setting a key to the value it has changes nothing. -/
theorem set_get? {d : Dict κ α} {k : κ} {a : α} (h : d.get? k = some a) : d.set k a = d := by
  obtain ⟨before, after, hsplit⟩ := List.append_of_mem (get?_eq_some.mp h)
  have hnodup := d.nodup
  rw [hsplit, List.map_append, List.nodup_append] at hnodup
  have hk : k ∉ before.map Prod.fst := fun hk => hnodup.2.2 k hk k (by simp) rfl
  refine ext_entries ?_
  show setEntry k a d.entries = d.entries
  rw [hsplit, setEntry_append hk, setEntry, if_pos rfl]

/-- Of two settings of a key the last counts. -/
theorem set_set (d : Dict κ α) (k : κ) (a b : α) : (d.set k a).set k b = d.set k b := by
  refine ext_entries ?_
  show setEntry k b (setEntry k a d.entries) = setEntry k b d.entries
  induction d.entries with
  | nil => simp [setEntry]
  | cons e rest ih =>
    obtain ⟨k', a'⟩ := e
    by_cases hk : k' = k
    · simp [setEntry, hk]
    · simp [setEntry, hk, ih]

/-- A key is not there just if nothing is found under it. -/
theorem notMem_keys {d : Dict κ α} {k : κ} : k ∉ d.keys ↔ d.get? k = none := by
  rw [Option.eq_none_iff_forall_ne_some]
  constructor
  · intro hk a ha
    exact hk (List.mem_map_of_mem (get?_eq_some.mp ha))
  · intro hnone hk
    obtain ⟨⟨k', a⟩, hentry, rfl⟩ := List.mem_map.mp hk
    exact hnone a (get?_eq_some.mpr hentry)

/-- Erasing several keys. -/
theorem get?_foldl_erase (ks : List κ) (d : Dict κ α) (x : κ) :
    (ks.foldl erase d).get? x = if x ∈ ks then none else d.get? x := by
  induction ks generalizing d with
  | nil => simp
  | cons k ks ih =>
    rw [List.foldl_cons, ih, get?_erase]
    by_cases hx : x ∈ ks
    · rw [if_pos hx, if_pos (List.mem_cons_of_mem k hx)]
    · by_cases hk : x = k
      · rw [if_neg hx, if_pos hk, if_pos (List.mem_cons.mpr (.inl hk))]
      · rw [if_neg hx, if_neg hk, if_neg (by simp [hx, hk])]

/-! ### How many keys there are -/

/-- The number of keys. -/
def size (d : Dict κ α) : ℕ := d.entries.length

/-- A dictionary in which something is found is not empty. -/
theorem size_pos {d : Dict κ α} {k : κ} {a : α} (h : d.get? k = some a) : 0 < d.size :=
  List.length_pos_of_mem (get?_eq_some.mp h)

/-- A new key is one more. -/
theorem size_set_of_none {d : Dict κ α} {k : κ} (a : α) (h : d.get? k = none) :
    (d.set k a).size = d.size + 1 := by
  have hentries : (d.set k a).entries = d.entries ++ [(k, a)] := by
    show setEntry k a d.entries = _
    conv_lhs => rw [← List.append_nil d.entries]
    exact setEntry_append (notMem_keys.mpr h)
  rw [size, hentries, List.length_append]
  rfl

/-- A key that goes is one less. -/
theorem size_erase_of_some {d : Dict κ α} {k : κ} {a : α} (h : d.get? k = some a) :
    (d.erase k).size + 1 = d.size := by
  obtain ⟨before, after, hsplit⟩ := List.append_of_mem (get?_eq_some.mp h)
  have hnodup := d.nodup
  rw [hsplit, List.map_append, List.map_cons] at hnodup
  obtain ⟨hk, -⟩ := List.nodup_cons.mp (List.nodup_middle.mp hnodup)
  have hkeep : ∀ entry ∈ before ++ after, decide (entry.1 ≠ k) = true := by
    rintro entry hentry
    rw [decide_eq_true_eq]
    intro heq
    refine hk ?_
    rw [← heq, ← List.map_append]
    exact List.mem_map.mpr ⟨entry, hentry, rfl⟩
  have herased : (d.erase k).entries = before ++ after := by
    show d.entries.filter _ = _
    rw [hsplit, List.filter_append, List.filter_cons_of_neg (by simp), ← List.filter_append]
    exact List.filter_eq_self.mpr hkeep
  rw [size, size, herased, hsplit, List.length_append, List.length_append, List.length_cons]
  omega

/-- A `mapAccum` is a sequence of settings, one entry after another. -/
theorem mapAccum_induction {R : Dict κ α → List ρ → Dict κ α → Prop} {f : κ → α → α × List ρ}
    (refl : ∀ d, R d [] d)
    (step : ∀ d k a later d', d.get? k = some a → R (d.set k (f k a).1) later d' →
      R d ((f k a).2 ++ later) d') (d : Dict κ α) :
    R d (d.mapAccum f).2 (d.mapAccum f).1 := by
  suffices hsuffix : ∀ (suffix before : List (κ × α)) (d d' : Dict κ α),
      d.entries = before ++ suffix → d'.entries = before ++ (mapAccumEntries f suffix).1 →
      R d (mapAccumEntries f suffix).2 d' from hsuffix d.entries [] d _ rfl rfl
  intro suffix
  induction suffix with
  | nil =>
    intro before d d' hd hd'
    rw [ext_entries (hd'.trans hd.symm)]
    exact refl d
  | cons e rest ih =>
    intro before d d' hd hd'
    obtain ⟨k, a⟩ := e
    have hnodup := d.nodup
    rw [hd, List.map_append, List.nodup_append] at hnodup
    have hk : k ∉ before.map Prod.fst := fun hk => hnodup.2.2 k hk k (by simp) rfl
    refine step d k a _ d' (get?_eq_some.mpr (by simp [hd])) ?_
    refine ih (before ++ [(k, (f k a).1)]) _ d' ?_ (by simpa [mapAccumEntries] using hd')
    show setEntry k (f k a).1 d.entries = _
    rw [hd, setEntry_append hk]
    simp [setEntry]

/-! ## Dictionaries filled from a list -/

section Filled

variable {ι : Type} {key : ι → κ} {value : ι → α} {xs : List ι} {d d' : Dict κ α} {k : κ}

/-- What is under a key comes from the elements of that key alone. -/
theorem get?_foldl_set_filter {p : ι → Bool} (hp : ∀ x ∈ xs, key x = k → p x = true)
    (hd : d.get? k = d'.get? k) :
    (xs.foldl (fun found x => found.set (key x) (value x)) d).get? k =
      ((xs.filter p).foldl (fun found x => found.set (key x) (value x)) d').get? k := by
  induction xs generalizing d d' with
  | nil => exact hd
  | cons x xs ih =>
    have hrest := fun x' hx' => hp x' (List.mem_cons_of_mem x hx')
    by_cases hx : p x = true
    · rw [List.filter_cons_of_pos hx, List.foldl_cons, List.foldl_cons]
      refine ih hrest ?_
      rw [get?_set, get?_set, hd]
    · rw [List.filter_cons_of_neg hx, List.foldl_cons]
      refine ih hrest ?_
      rw [get?_set_of_ne _ _ fun hkey => hx (hp x List.mem_cons_self hkey)]
      exact hd

/-- A fold over the elements of one key, which have one value, may take them in any order. -/
theorem foldl_perm_of_key {γ σ : Type} {value : ι → γ} (step : σ → γ → σ) {ys : List ι}
    (hp : xs.Perm ys) (hone : ∀ x ∈ xs, ∀ y ∈ xs, key x = key y → value x = value y) (s : σ) (k : κ) :
    xs.foldl (fun s x => if key x = k then step s (value x) else s) s =
      ys.foldl (fun s x => if key x = k then step s (value x) else s) s := by
  refine hp.foldl_eq' (fun x hx y hy s => ?_) s
  by_cases hfirst : key x = k
  · by_cases hsecond : key y = k
    · rw [if_pos hfirst, if_pos hsecond, if_pos hsecond, if_pos hfirst,
        hone x hx y hy (hfirst.trans hsecond.symm)]
    · rw [if_pos hfirst, if_neg hsecond, if_neg hsecond, if_pos hfirst]
  · rw [if_neg hfirst, if_neg hfirst]

/-- What a key holds is set by the elements of that key, one after another. -/
theorem get?_foldl_set (xs : List ι) (d : Dict κ α) (k : κ) :
    (xs.foldl (fun found x => found.set (key x) (value x)) d).get? k =
      xs.foldl (fun held x => if key x = k then some (value x) else held) (d.get? k) := by
  induction xs generalizing d with
  | nil => rfl
  | cons x xs ih => rw [List.foldl_cons, List.foldl_cons, ih, get?_set]

/-- Where the elements of a key have one value, their order does not matter. -/
theorem get?_foldl_set_perm {ys : List ι} (hp : xs.Perm ys)
    (hone : ∀ x ∈ xs, ∀ y ∈ xs, key x = key y → value x = value y) (hd : d.get? k = d'.get? k) :
    (xs.foldl (fun found x => found.set (key x) (value x)) d).get? k =
      (ys.foldl (fun found x => found.set (key x) (value x)) d').get? k := by
  rw [get?_foldl_set, get?_foldl_set, hd]
  exact foldl_perm_of_key (fun _ => some) hp hone _ k

/-- What a key holds is what it held, else the first value of an element of that key. -/
theorem get?_foldl_setDefault {value : ι → Option α} (xs : List ι) (d : Dict κ α) (k : κ) :
    (xs.foldl (fun found x => (value x).elim found (found.setDefault (key x))) d).get? k =
      xs.foldl (fun held x => if key x = k then held.or (value x) else held) (d.get? k) := by
  induction xs generalizing d with
  | nil => rfl
  | cons x xs ih =>
    rw [List.foldl_cons, List.foldl_cons, ih]
    congr 1
    cases value x with
    | none =>
      rw [Option.or_none, ite_self]
      rfl
    | some a =>
      rw [Option.elim_some, get?_setDefault]
      congr 1
      cases d.get? k <;> rfl

/-- Where the elements of a key have one value, their order does not matter. -/
theorem get?_foldl_setDefault_perm {value : ι → Option α} {ys : List ι} (hp : xs.Perm ys)
    (hone : ∀ x ∈ xs, ∀ y ∈ xs, key x = key y → value x = value y) (hd : d.get? k = d'.get? k) :
    (xs.foldl (fun found x => (value x).elim found (found.setDefault (key x))) d).get? k =
      (ys.foldl (fun found x => (value x).elim found (found.setDefault (key x))) d').get? k := by
  rw [get?_foldl_setDefault, get?_foldl_setDefault, hd]
  exact foldl_perm_of_key Option.or hp hone _ k

/-- What is under a key was there before or is the value of an element of that key. -/
theorem get?_foldl_set_eq_some {a : α}
    (h : (xs.foldl (fun found x => found.set (key x) (value x)) d).get? k = some a) :
    d.get? k = some a ∨ ∃ x ∈ xs, key x = k ∧ value x = a := by
  induction xs generalizing d with
  | nil => exact .inl h
  | cons x xs ih =>
    rcases ih h with hfirst | ⟨x', hx', hvalue⟩
    · rw [get?_set] at hfirst
      by_cases hkey : key x = k
      · rw [if_pos hkey] at hfirst
        exact .inr ⟨x, List.mem_cons_self, hkey, Option.some.inj hfirst⟩
      · rw [if_neg hkey] at hfirst
        exact .inl hfirst
    · exact .inr ⟨x', List.mem_cons_of_mem x hx', hvalue⟩

/-- The first value under a key stays, and the elements of that key have no other. -/
theorem getD_foldl_setDefault {value : ι → Option α} {a : α}
    (h : ∀ x ∈ xs, key x = k → ∀ a', value x = some a' → a' = a) :
    ((xs.foldl (fun found x => (value x).elim found (found.setDefault (key x))) d).get? k).getD a =
      (d.get? k).getD a := by
  induction xs generalizing d with
  | nil => rfl
  | cons x xs ih =>
    rw [List.foldl_cons, ih fun x' hx' => h x' (List.mem_cons_of_mem x hx')]
    cases hvalue : value x with
    | none => rfl
    | some a' =>
      rw [Option.elim_some, get?_setDefault]
      by_cases hkey : key x = k
      · rw [if_pos hkey, h x List.mem_cons_self hkey a' hvalue, Option.getD_some]
      · rw [if_neg hkey]

/-- An element with a value gets its key one. -/
theorem isSome_foldl_setDefault {value : ι → Option α}
    (h : (d.get? k).isSome = true ∨ ∃ x ∈ xs, key x = k ∧ (value x).isSome = true) :
    ((xs.foldl (fun found x => (value x).elim found (found.setDefault (key x))) d).get? k).isSome =
      true := by
  induction xs generalizing d with
  | nil =>
    rcases h with hd | ⟨x, hx, -⟩
    · exact hd
    · exact absurd hx List.not_mem_nil
  | cons x xs ih =>
    refine ih ?_
    dsimp only
    rcases h with hd | ⟨x', hx', hkey, hvalue⟩
    · left
      cases value x with
      | none => exact hd
      | some a =>
        rw [Option.elim_some, get?_setDefault]
        split
        · rfl
        · exact hd
    · rcases List.mem_cons.mp hx' with rfl | hrest
      · left
        obtain ⟨a, ha⟩ := Option.isSome_iff_exists.mp hvalue
        rw [ha, Option.elim_some, get?_setDefault, if_pos hkey]
        rfl
      · exact .inr ⟨x', hrest, hkey, hvalue⟩

/-- New entries stand behind the old ones, in their own order. -/
theorem entries_foldl_set {entries : List (κ × α)} (hnodup : (entries.map Prod.fst).Nodup)
    (hnew : ∀ k ∈ entries.map Prod.fst, k ∉ d.keys) :
    (entries.foldl (fun found entry => found.set entry.1 entry.2) d).entries = d.entries ++ entries := by
  induction entries generalizing d with
  | nil => exact (List.append_nil d.entries).symm
  | cons entry rest ih =>
    rw [List.map_cons, List.nodup_cons] at hnodup
    have hfirst : (d.set entry.1 entry.2).entries = d.entries ++ [entry] := by
      show setEntry entry.1 entry.2 d.entries = _
      conv_lhs => rw [← List.append_nil d.entries]
      exact setEntry_append (hnew entry.1 (by simp))
    have hrest : ∀ k ∈ rest.map Prod.fst, k ∉ (d.set entry.1 entry.2).keys := by
      intro k hk hin
      rw [keys, hfirst, List.map_append, List.mem_append] at hin
      rcases hin with hold | hentry
      · exact hnew k (by simp [hk]) hold
      · rw [List.map_singleton, List.mem_singleton] at hentry
        exact hnodup.1 (hentry ▸ hk)
    rw [List.foldl_cons, ih hnodup.2 hrest, hfirst, List.append_assoc, List.singleton_append]

end Filled

end Dict

end Common
