import Mathlib.Data.List.Basic
import Mathlib.Data.List.Forall2
import Mathlib.Data.List.Perm.Basic

/-!
# Computations that may raise

A loop over a list whose body may raise ends at the first raise. `List.mapM` is the loop that collects
what its body makes of each element; `accumulate` also threads a state. Where such a loop succeeds its
results belong to its elements one by one.
-/

namespace Common

variable {ε α β σ : Type}

/-- What is no error is a value. -/
theorem exists_of_isOk {x : Except ε α} (h : x.isOk = true) : ∃ a, x = .ok a := by
  cases x with
  | error e => cases h
  | ok a => exact ⟨a, rfl⟩

/-- A mapped value was a value. -/
theorem exists_of_map {x : Except ε α} {f : α → β} {b : β} (h : x.map f = .ok b) : ∃ a, x = .ok a := by
  cases x with
  | error e => cases h
  | ok a => exact ⟨a, rfl⟩

/-- A sequence succeeds just if both parts do. -/
theorem bind_eq_ok {x : Except ε α} {f : α → Except ε β} {b : β} :
    x >>= f = .ok b ↔ ∃ a, x = .ok a ∧ f a = .ok b := by
  cases x with
  | error e => exact ⟨nofun, nofun⟩
  | ok a => exact ⟨fun h => ⟨a, rfl, h⟩, fun ⟨a', h, h'⟩ => Except.ok.inj h ▸ h'⟩

/-- A value found by mapping is the image of one. -/
theorem toOption_map_eq_some {x : Except ε α} {f : α → β} {b : β} :
    x.toOption.map f = some b ↔ ∃ a, x = .ok a ∧ f a = b := by
  cases x with
  | error e =>
    constructor
    · intro h
      cases h
    · rintro ⟨a, h, -⟩
      cases h
  | ok a =>
    constructor
    · intro h
      exact ⟨a, rfl, Option.some.inj h⟩
    · rintro ⟨a', h, h'⟩
      obtain rfl := Except.ok.inj h
      exact congrArg some h'

@[simp] theorem pure_eq_ok {a b : α} : (pure a : Except ε α) = .ok b ↔ a = b :=
  ⟨Except.ok.inj, congrArg _⟩

/-- A loop that collects succeeds just if its body does on each element. -/
theorem mapM_eq_ok {f : α → Except ε β} {xs : List α} {ys : List β} :
    xs.mapM f = .ok ys ↔ List.Forall₂ (fun x y => f x = .ok y) xs ys := by
  induction xs generalizing ys with
  | nil =>
    rw [List.mapM_nil, pure_eq_ok, List.forall₂_nil_left_iff]
    exact eq_comm
  | cons x xs ih =>
    rw [List.mapM_cons, List.forall₂_cons_left_iff]
    simp only [bind_eq_ok, pure_eq_ok, ih]
    constructor
    · rintro ⟨y, hy, ys', hys, rfl⟩
      exact ⟨y, ys', hy, hys, rfl⟩
    · rintro ⟨y, ys', hy, hys, rfl⟩
      exact ⟨y, hy, ys', hys, rfl⟩

/-- In lists related one by one, each element of the second has its own in the first. -/
theorem exists_of_forall₂ {R : α → β → Prop} {xs : List α} {ys : List β} (h : List.Forall₂ R xs ys) :
    ∀ y ∈ ys, ∃ x ∈ xs, R x y := by
  induction h with
  | nil =>
    intro y hy
    exact absurd hy List.not_mem_nil
  | cons hfirst _ ih =>
    intro y hy
    rcases List.mem_cons.mp hy with rfl | hrest
    · exact ⟨_, List.mem_cons_self, hfirst⟩
    · obtain ⟨x, hx, hrelated⟩ := ih y hrest
      exact ⟨x, List.mem_cons_of_mem _ hx, hrelated⟩

/-- What a loop collects is what its body made of some element. -/
theorem exists_of_mapM {f : α → Except ε β} {xs : List α} {ys : List β} (h : xs.mapM f = .ok ys) :
    ∀ y ∈ ys, ∃ x ∈ xs, f x = .ok y :=
  exists_of_forall₂ (mapM_eq_ok.mp h)

/-- A loop that collects has made something of every element. -/
theorem made_of_mapM {f : α → Except ε β} {xs : List α} {ys : List β} (h : xs.mapM f = .ok ys) :
    ∀ x ∈ xs, ∃ y ∈ ys, f x = .ok y :=
  exists_of_forall₂ (mapM_eq_ok.mp h).flip

/-- The loop that collects `f` of each element and threads a state. -/
def accumulate (f : σ → α → Except ε (β × σ)) (s : σ) : List α → Except ε (List β × σ)
  | [] => .ok ([], s)
  | x :: xs => do
    let first ← f s x
    let rest ← accumulate f first.2 xs
    return (first.1 :: rest.1, rest.2)

/-- A loop that succeeds does so on its first element and on the rest. -/
theorem accumulate_cons_eq_ok {f : σ → α → Except ε (β × σ)} {s s' : σ} {x : α} {xs : List α}
    {ys : List β} : accumulate f s (x :: xs) = .ok (ys, s') ↔
      ∃ y t ys', f s x = .ok (y, t) ∧ accumulate f t xs = .ok (ys', s') ∧ ys = y :: ys' := by
  rw [accumulate]
  simp only [bind_eq_ok, pure_eq_ok, Prod.mk.injEq]
  constructor
  · rintro ⟨⟨y, t⟩, hy, ⟨ys', s''⟩, hys, rfl, rfl⟩
    exact ⟨y, t, ys', hy, hys, rfl⟩
  · rintro ⟨y, t, ys', hy, hys, rfl⟩
    exact ⟨(y, t), hy, (ys', s'), hys, rfl, rfl⟩

/-- Every result of a loop comes from its element, in some state. -/
theorem forall₂_of_accumulate {f : σ → α → Except ε (β × σ)} {s s' : σ} {xs : List α} {ys : List β}
    (h : accumulate f s xs = .ok (ys, s')) :
    List.Forall₂ (fun x y => ∃ t t', f t x = .ok (y, t')) xs ys := by
  induction xs generalizing s ys with
  | nil => cases h; exact .nil
  | cons x xs ih =>
    obtain ⟨y, t, ys', hy, hys, rfl⟩ := accumulate_cons_eq_ok.mp h
    exact .cons ⟨s, t, hy⟩ (ih hys)

/-- A loop over a list put together is one loop after the other. -/
theorem accumulate_append_eq_ok {f : σ → α → Except ε (β × σ)} {s s' : σ} {xs xs' : List α} {zs : List β} :
    accumulate f s (xs ++ xs') = .ok (zs, s') ↔ ∃ ys t ys', accumulate f s xs = .ok (ys, t) ∧
      accumulate f t xs' = .ok (ys', s') ∧ zs = ys ++ ys' := by
  induction xs generalizing s zs with
  | nil =>
    constructor
    · exact fun h => ⟨[], s, zs, rfl, h, rfl⟩
    · rintro ⟨ys, t, ys', hys, hys', rfl⟩
      cases hys
      exact hys'
  | cons x xs ih =>
    rw [List.cons_append, accumulate_cons_eq_ok]
    constructor
    · rintro ⟨y, next, rest, hy, hrest, rfl⟩
      obtain ⟨ys, t, ys', hys, hys', rfl⟩ := ih.mp hrest
      exact ⟨y :: ys, t, ys', accumulate_cons_eq_ok.mpr ⟨y, next, ys, hy, hys, rfl⟩, hys', rfl⟩
    · rintro ⟨ys, t, ys', hys, hys', rfl⟩
      obtain ⟨y, next, rest, hy, hrest, rfl⟩ := accumulate_cons_eq_ok.mp hys
      exact ⟨y, next, rest ++ ys', hy, ih.mpr ⟨rest, t, ys', hrest, hys', rfl⟩, rfl⟩

/-- What every step of a loop keeps, the loop keeps. -/
theorem accumulate_keeps {P : σ → Prop} {f : σ → α → Except ε (β × σ)} {xs : List α}
    (hf : ∀ x ∈ xs, ∀ s y s', P s → f s x = .ok (y, s') → P s') {s s' : σ} {ys : List β} (hs : P s)
    (h : accumulate f s xs = .ok (ys, s')) : P s' := by
  induction xs generalizing s ys with
  | nil =>
    cases h
    exact hs
  | cons x xs ih =>
    obtain ⟨y, t, ys', hy, hys, rfl⟩ := accumulate_cons_eq_ok.mp h
    exact ih (fun x' hx' => hf x' (List.mem_cons_of_mem x hx'))
      (hf x List.mem_cons_self s y t hs hy) hys

/-- Every result of a loop comes from its element, in a state that is as every step keeps it. -/
theorem forall₂_of_accumulate_keeps {P : σ → Prop} {f : σ → α → Except ε (β × σ)} {xs : List α}
    (hf : ∀ x ∈ xs, ∀ s y s', P s → f s x = .ok (y, s') → P s') {s s' : σ} {ys : List β} (hs : P s)
    (h : accumulate f s xs = .ok (ys, s')) :
    List.Forall₂ (fun x y => ∃ t t', P t ∧ f t x = .ok (y, t')) xs ys := by
  induction xs generalizing s ys with
  | nil =>
    cases h
    exact .nil
  | cons x xs ih =>
    obtain ⟨y, t, ys', hy, hys, rfl⟩ := accumulate_cons_eq_ok.mp h
    exact .cons ⟨s, t, hs, hy⟩ (ih (fun x' hx' => hf x' (List.mem_cons_of_mem x hx'))
      (hf x List.mem_cons_self s y t hs hy) hys)

/-- What each step of a loop may add, the loop adds if one of its elements does. -/
theorem accumulate_adds {P : σ → Prop} {Q : α → Prop} {f : σ → α → Except ε (β × σ)} {xs : List α}
    (hf : ∀ x ∈ xs, ∀ s y s', f s x = .ok (y, s') → (P s' ↔ P s ∨ Q x)) {s s' : σ} {ys : List β}
    (h : accumulate f s xs = .ok (ys, s')) : P s' ↔ P s ∨ ∃ x ∈ xs, Q x := by
  induction xs generalizing s ys with
  | nil =>
    cases h
    simp
  | cons x xs ih =>
    obtain ⟨y, t, ys', hy, hys, rfl⟩ := accumulate_cons_eq_ok.mp h
    rw [ih (fun x' hx' => hf x' (List.mem_cons_of_mem x hx')) hys, hf x List.mem_cons_self s y t hy,
      List.exists_mem_cons_iff, or_assoc]

/-! ## Loops whose order does not matter -/

/-- A loop that collects makes of a permuted list what it makes of the list, permuted. -/
theorem mapM_perm {f : α → Except ε β} {xs xs' : List α} {ys : List β} (hp : xs'.Perm xs)
    (h : xs.mapM f = .ok ys) : ∃ ys', xs'.mapM f = .ok ys' ∧ ys'.Perm ys := by
  obtain ⟨ys', hall, hperm⟩ := List.perm_comp_forall₂ hp (mapM_eq_ok.mp h)
  exact ⟨ys', mapM_eq_ok.mpr hall, hperm⟩

/-- Where a step leaves the state `Same` to the elements still to come, the loop makes of each element
what `g` makes of it, in whatever state it comes to it. -/
theorem accumulate_eq_mapM {Same : α → σ → Prop} {f : σ → α → Except ε (β × σ)} {g : α → Except ε β}
    {xs : List α} (hsame : ∀ x ∈ xs, ∀ s, Same x s → (f s x).map Prod.fst = g x)
    (hkeeps : xs.Pairwise fun x x' => ∀ s y s', Same x s → Same x' s → f s x = .ok (y, s') → Same x' s')
    {s : σ} (hs : ∀ x ∈ xs, Same x s) (ys : List β) :
    (∃ s', accumulate f s xs = .ok (ys, s')) ↔ xs.mapM g = .ok ys := by
  induction xs generalizing s ys with
  | nil =>
    rw [List.mapM_nil, pure_eq_ok]
    constructor
    · rintro ⟨s', h⟩
      cases h
      rfl
    · rintro rfl
      exact ⟨s, rfl⟩
  | cons x xs ih =>
    obtain ⟨hfirst, hrest⟩ := List.pairwise_cons.mp hkeeps
    have hx : Same x s := hs x List.mem_cons_self
    have hstep (y : β) : g x = .ok y ↔ ∃ t, f s x = .ok (y, t) := by
      rw [← hsame x List.mem_cons_self s hx]
      cases f s x with
      | error failure => simp [Except.map]
      | ok made => simp [Except.map, Prod.ext_iff]
    have hnext {y : β} {t : σ} (hy : f s x = .ok (y, t)) (ys' : List β) :
        (∃ s', accumulate f t xs = .ok (ys', s')) ↔ xs.mapM g = .ok ys' := by
      refine ih (fun x' hx' => hsame x' (List.mem_cons_of_mem x hx')) hrest ?_ ys'
      exact fun x' hx' => hfirst x' hx' s y t hx (hs x' (List.mem_cons_of_mem x hx')) hy
    rw [List.mapM_cons]
    simp only [accumulate_cons_eq_ok, bind_eq_ok, pure_eq_ok]
    constructor
    · rintro ⟨s', y, t, ys', hy, hys, rfl⟩
      exact ⟨y, (hstep y).mpr ⟨t, hy⟩, ys', (hnext hy ys').mp ⟨s', hys⟩, rfl⟩
    · rintro ⟨y, hy, ys', hys, rfl⟩
      obtain ⟨t, hy⟩ := (hstep y).mp hy
      obtain ⟨s', hys⟩ := (hnext hy ys').mpr hys
      exact ⟨s', y, t, ys', hy, hys, rfl⟩

/-! ## Loops over a part of a list

A loop that is run over some of the elements makes of them what the whole loop makes, if the states of
the two stay related through the elements left out, and these come to nothing of interest. -/

/-- The second list leaves out of the first only what is `Quiet`: whatever is read off the elements,
nothing off quiet ones, is the same of both. -/
def Keeps (Quiet : β → Prop) (ys ys' : List β) : Prop :=
  ∀ (γ : Type) (out : β → List γ), (∀ y, Quiet y → out y = []) → ys.flatMap out = ys'.flatMap out

/-- A loop over a part gives what the loop over the whole gives for that part. -/
theorem accumulate_filter {R : σ → σ → Prop} {Quiet : β → Prop} {f g : σ → α → Except ε (β × σ)}
    {mine : α → Bool} {xs : List α}
    (hmine : ∀ x ∈ xs, mine x = true → ∀ s t y s', R s t → f s x = .ok (y, s') →
      ∃ t', g t x = .ok (y, t') ∧ R s' t')
    (hother : ∀ x ∈ xs, mine x = false → ∀ s t y s', R s t → f s x = .ok (y, s') →
      Quiet y ∧ R s' t)
    {s s' t : σ} {ys : List β} (hR : R s t) (h : accumulate f s xs = .ok (ys, s')) :
    ∃ ys' t', accumulate g t (xs.filter mine) = .ok (ys', t') ∧ R s' t' ∧ Keeps Quiet ys ys' := by
  induction xs generalizing s t ys with
  | nil =>
    cases h
    exact ⟨[], t, rfl, hR, fun _ _ _ => rfl⟩
  | cons x xs ih =>
    obtain ⟨y, middle, ys', hy, hys, rfl⟩ := accumulate_cons_eq_ok.mp h
    have hmine' := fun x' hx' => hmine x' (List.mem_cons_of_mem x hx')
    have hother' := fun x' hx' => hother x' (List.mem_cons_of_mem x hx')
    by_cases hx : mine x = true
    · obtain ⟨middle', hg, hmiddle⟩ := hmine x List.mem_cons_self hx s t y middle hR hy
      obtain ⟨kept, t', hrest, hlast, hkeeps⟩ := ih hmine' hother' hmiddle hys
      rw [List.filter_cons_of_pos hx]
      refine ⟨y :: kept, t', accumulate_cons_eq_ok.mpr ⟨y, middle', kept, hg, hrest, rfl⟩, hlast, ?_⟩
      intro γ out hout
      rw [List.flatMap_cons, List.flatMap_cons, hkeeps γ out hout]
    · obtain ⟨hquiet, hmiddle⟩ := hother x List.mem_cons_self (eq_false_of_ne_true hx) s t y middle hR hy
      obtain ⟨kept, t', hrest, hlast, hkeeps⟩ := ih hmine' hother' hmiddle hys
      rw [List.filter_cons_of_neg hx]
      refine ⟨kept, t', hrest, hlast, fun γ out hout => ?_⟩
      rw [List.flatMap_cons, hout y hquiet, List.nil_append, hkeeps γ out hout]

/-- Elements that never raise, leave the state alone and come to nothing may be added to a loop. -/
theorem accumulate_of_filter {Quiet : β → Prop} {f : σ → α → Except ε (β × σ)} {mine : α → Bool}
    {xs : List α} (hother : ∀ x ∈ xs, mine x = false → ∀ s, ∃ y, f s x = .ok (y, s) ∧ Quiet y)
    {s s' : σ} {ys : List β} (h : accumulate f s (xs.filter mine) = .ok (ys, s')) :
    ∃ ys', accumulate f s xs = .ok (ys', s') ∧ Keeps Quiet ys' ys := by
  induction xs generalizing s ys with
  | nil => exact ⟨ys, h, fun _ _ _ => rfl⟩
  | cons x xs ih =>
    have hother' := fun x' hx' => hother x' (List.mem_cons_of_mem x hx')
    by_cases hx : mine x = true
    · rw [List.filter_cons_of_pos hx] at h
      obtain ⟨y, middle, kept, hy, hrest, rfl⟩ := accumulate_cons_eq_ok.mp h
      obtain ⟨ys', hys, hkeeps⟩ := ih hother' hrest
      refine ⟨y :: ys', accumulate_cons_eq_ok.mpr ⟨y, middle, ys', hy, hys, rfl⟩, fun γ out hout => ?_⟩
      rw [List.flatMap_cons, List.flatMap_cons, hkeeps γ out hout]
    · rw [List.filter_cons_of_neg hx] at h
      obtain ⟨y, hy, hquiet⟩ := hother x List.mem_cons_self (eq_false_of_ne_true hx) s
      obtain ⟨ys', hys, hkeeps⟩ := ih hother' h
      refine ⟨y :: ys', accumulate_cons_eq_ok.mpr ⟨y, s, ys', hy, hys, rfl⟩, fun γ out hout => ?_⟩
      rw [List.flatMap_cons, hout y hquiet, List.nil_append, hkeeps γ out hout]

/-! ## Exact codecs

A format is exact when its reader never raises and takes a text for a record just if the text is what
the writer makes of that record. -/

/-- `decode` reads exactly the texts `encode` writes. -/
structure ExactCodec (encode : α → Except ε β) (decode : β → Except ε (Option α)) : Prop where
  returns (text : β) : ∃ found, decode text = .ok found
  exact (a : α) (text : β) : decode text = .ok (some a) ↔ encode a = .ok text

namespace ExactCodec

variable {encode : α → Except ε β} {decode : β → Except ε (Option α)}

/-- Two records that are written alike are one. -/
theorem injective (h : ExactCodec encode decode) {a a' : α} {text : β} (ha : encode a = .ok text)
    (ha' : encode a' = .ok text) : a = a' := by
  have hread : decode text = .ok (some a) := (h.exact a text).mpr ha
  have hread' : decode text = .ok (some a') := (h.exact a' text).mpr ha'
  rw [hread] at hread'
  exact Option.some.inj (Except.ok.inj hread')

/-- A text is foreign just if no record is written so. -/
theorem foreign_iff (h : ExactCodec encode decode) (text : β) :
    decode text = .ok none ↔ ∀ a, encode a ≠ .ok text := by
  constructor
  · intro hnone a ha
    have hread := (h.exact a text).mpr ha
    rw [hnone] at hread
    exact nomatch Except.ok.inj hread
  · intro hnever
    obtain ⟨found, hfound⟩ := h.returns text
    rcases found with _ | a
    · exact hfound
    · exact absurd ((h.exact a text).mp hfound) (hnever a)

end ExactCodec

end Common
