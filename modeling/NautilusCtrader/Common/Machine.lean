import Mathlib.Data.List.Basic

/-!
# Machines that tell

A machine takes inputs one after another; each changes its state and tells a list of outputs. A run
over a list of inputs leaves a state and everything told on the way. An invariant that every input
keeps holds after a whole run, and so does one that only inputs meeting a condition keep, over runs
in which every input meets it. Where each input either writes a value or leaves it, a run leaves what
the last writing input wrote.
-/

namespace Common

/-- A state machine with states `σ` and inputs `ι` that tells outputs `ρ`. -/
structure Machine (σ ι ρ : Type) where
  step : σ → ι → σ × List ρ

namespace Machine

variable {σ ι ρ : Type} (m : Machine σ ι ρ)

/-- The state a run from `s` leaves. -/
def after (s : σ) : List ι → σ
  | [] => s
  | i :: rest => after (m.step s i).1 rest

/-- Everything a run from `s` tells, in order. -/
def told (s : σ) : List ι → List ρ
  | [] => []
  | i :: rest => (m.step s i).2 ++ told (m.step s i).1 rest

/-- Every input of a run from `s` meets `cond` in the state it finds. -/
def Always (cond : σ → ι → Prop) (s : σ) : List ι → Prop
  | [] => True
  | i :: rest => cond s i ∧ Always cond (m.step s i).1 rest

instance decidableAlways {cond : σ → ι → Prop} [∀ s i, Decidable (cond s i)] :
    ∀ (s : σ) (is : List ι), Decidable (m.Always cond s is)
  | _, [] => .isTrue trivial
  | s, i :: is => @instDecidableAnd _ _ _ (decidableAlways (m.step s i).1 is)

@[simp] theorem after_nil (s : σ) : m.after s [] = s := rfl

@[simp] theorem after_cons (s : σ) (i : ι) (is : List ι) :
    m.after s (i :: is) = m.after (m.step s i).1 is := rfl

@[simp] theorem told_nil (s : σ) : m.told s [] = [] := rfl

@[simp] theorem told_cons (s : σ) (i : ι) (is : List ι) :
    m.told s (i :: is) = (m.step s i).2 ++ m.told (m.step s i).1 is := rfl

/-- A run goes on from where its first part ends. -/
theorem after_append (s : σ) (is js : List ι) :
    m.after s (is ++ js) = m.after (m.after s is) js := by
  induction is generalizing s with
  | nil => rfl
  | cons i is ih => exact ih (m.step s i).1

/-- What a run tells, in two parts. -/
theorem told_append (s : σ) (is js : List ι) :
    m.told s (is ++ js) = m.told s is ++ m.told (m.after s is) js := by
  induction is generalizing s with
  | nil => rfl
  | cons i is ih =>
    show (m.step s i).2 ++ m.told (m.step s i).1 (is ++ js) = _
    rw [ih, ← List.append_assoc]
    rfl

/-- A condition on every step, in two parts. -/
theorem always_append {cond : σ → ι → Prop} (s : σ) (is js : List ι) :
    m.Always cond s (is ++ js) ↔ m.Always cond s is ∧ m.Always cond (m.after s is) js := by
  induction is generalizing s with
  | nil => exact ⟨fun h => ⟨trivial, h⟩, fun h => h.2⟩
  | cons i is ih =>
    show (cond s i ∧ m.Always cond (m.step s i).1 (is ++ js)) ↔ _
    rw [ih, ← and_assoc]
    rfl

/-- The machine that takes `f k` for `k`. -/
def comap {κ : Type} (f : κ → ι) : Machine σ κ ρ where
  step s k := m.step s (f k)

/-- A machine with its inputs relabelled runs as the machine on them. -/
theorem after_comap {κ : Type} (f : κ → ι) (s : σ) (ks : List κ) :
    (m.comap f).after s ks = m.after s (ks.map f) := by
  induction ks generalizing s with
  | nil => rfl
  | cons k ks ih => exact ih _

variable {m}

/-- An invariant that every input keeps holds after a run. -/
theorem after_invariant {I : σ → Prop} (hstep : ∀ s i, I s → I (m.step s i).1) {s : σ} (hs : I s)
    (is : List ι) : I (m.after s is) := by
  induction is generalizing s with
  | nil => exact hs
  | cons i is ih => exact ih (hstep s i hs)

/-- An invariant that the inputs meeting `cond` keep holds after a run of such inputs. -/
theorem after_invariant_of_always {I : σ → Prop} {cond : σ → ι → Prop}
    (hstep : ∀ s i, I s → cond s i → I (m.step s i).1) {s : σ} (hs : I s) {is : List ι}
    (his : m.Always cond s is) : I (m.after s is) := by
  induction is generalizing s with
  | nil => exact hs
  | cons i is ih => exact ih (hstep s i hs his.1) his.2

/-- An invariant of a state and of everything told so far holds after a run. -/
theorem told_invariant {I : List ρ → σ → Prop}
    (hstep : ∀ told s i, I told s → I (told ++ (m.step s i).2) (m.step s i).1) {s : σ}
    (hs : I [] s) (is : List ι) : I (m.told s is) (m.after s is) := by
  suffices ∀ told s, I told s → I (told ++ m.told s is) (m.after s is) from this [] s hs
  induction is with
  | nil =>
    intro told s hI
    rwa [told_nil, List.append_nil]
  | cons i is ih =>
    intro told s hI
    rw [told_cons, ← List.append_assoc]
    exact ih _ _ (hstep told s i hI)

/-- An invariant of a state and of everything told so far that the inputs meeting `cond` keep holds
after a run of such inputs. -/
theorem told_invariant_of_always {I : List ρ → σ → Prop} {cond : σ → ι → Prop}
    (hstep : ∀ told s i, I told s → cond s i → I (told ++ (m.step s i).2) (m.step s i).1)
    {told : List ρ} {s : σ} (hs : I told s) {is : List ι} (his : m.Always cond s is) :
    I (told ++ m.told s is) (m.after s is) := by
  induction is generalizing told s with
  | nil => rwa [told_nil, List.append_nil]
  | cons i is ih =>
    rw [told_cons, ← List.append_assoc]
    exact ih (hstep told s i hs his.1) his.2

/-- Each input of a run meets what it meets in every state. -/
theorem always_of_forall {cond : σ → ι → Prop} {is : List ι} (h : ∀ i ∈ is, ∀ s, cond s i) (s : σ) :
    m.Always cond s is := by
  induction is generalizing s with
  | nil => trivial
  | cons i is ih =>
    exact ⟨h i List.mem_cons_self s, ih (fun j hj => h j (List.mem_cons_of_mem _ hj)) _⟩

/-- What no run tells, none of its inputs tells. -/
theorem always_not_told {record : ρ} {s : σ} {is : List ι} (h : record ∉ m.told s is) :
    m.Always (fun s i => record ∉ (m.step s i).2) s is := by
  induction is generalizing s with
  | nil => trivial
  | cons i is ih =>
    rw [told_cons, List.mem_append, not_or] at h
    exact ⟨h.1, ih h.2⟩

/-- A weaker condition is met too. -/
theorem Always.mono {cond cond' : σ → ι → Prop} (himp : ∀ s i, cond s i → cond' s i) {s : σ}
    {is : List ι} (h : m.Always cond s is) : m.Always cond' s is := by
  induction is generalizing s with
  | nil => trivial
  | cons i is ih => exact ⟨himp s i h.1, ih h.2⟩

/-- Two conditions are met together. -/
theorem Always.and {cond cond' : σ → ι → Prop} {s : σ} {is : List ι} (h : m.Always cond s is)
    (h' : m.Always cond' s is) : m.Always (fun s i => cond s i ∧ cond' s i) s is := by
  induction is generalizing s with
  | nil => trivial
  | cons i is ih => exact ⟨⟨h.1, h'.1⟩, ih h.2 h'.2⟩

/-! ## Where something was told -/

/-- Something told is among what was told first, or among what came after. -/
theorem append_split {told more before rest : List ρ} {record : ρ}
    (h : told ++ more = before ++ record :: rest) :
    (∃ earlier, rest = earlier ++ more ∧ told = before ++ record :: earlier) ∨
      ∃ earlier, before = told ++ earlier ∧ more = earlier ++ record :: rest := by
  rcases List.append_eq_append_iff.mp h with ⟨earlier, hbefore, hmore⟩ | ⟨later, htold, hrest⟩
  · exact .inr ⟨earlier, hbefore, hmore⟩
  · cases later with
    | nil => exact .inr ⟨[], by rw [htold, List.append_nil, List.append_nil], hrest.symm⟩
    | cons found later =>
      obtain ⟨rfl, rfl⟩ := List.cons.inj hrest
      exact .inl ⟨later, rfl, htold⟩

/-- Something told is among what was told first, or it is the one record that came after. -/
theorem concat_split {told before rest : List ρ} {last record : ρ}
    (h : told ++ [last] = before ++ record :: rest) :
    (∃ earlier, rest = earlier ++ [last] ∧ told = before ++ record :: earlier) ∨
      (rest = [] ∧ told = before ∧ last = record) := by
  rcases append_split h with hearlier | ⟨earlier, hbefore, hlast⟩
  · exact .inl hearlier
  · cases earlier with
    | nil =>
      obtain ⟨heq, hrest⟩ := List.cons.inj hlast
      exact .inr ⟨hrest.symm, by rw [hbefore, List.append_nil], heq⟩
    | cons found earlier => exact absurd (List.cons.inj hlast).2 (by simp)

/-- Something that `opens` was told, and nothing that `shuts` after it. -/
def Since (opens shuts : ρ → Prop) (told : List ρ) : Prop :=
  ∃ before record rest, told = before ++ record :: rest ∧ opens record ∧ ∀ t ∈ rest, ¬ shuts t

/-- What was opened stays open while nothing shuts it. -/
theorem Since.append {opens shuts : ρ → Prop} {told more : List ρ} (h : Since opens shuts told)
    (hmore : ∀ t ∈ more, ¬ shuts t) : Since opens shuts (told ++ more) := by
  obtain ⟨before, record, rest, rfl, hopens, hrest⟩ := h
  refine ⟨before, record, rest ++ more, by rw [List.append_assoc, List.cons_append], hopens, ?_⟩
  intro t ht
  rcases List.mem_append.mp ht with ht | ht
  · exact hrest t ht
  · exact hmore t ht

/-- A record opens what nothing after it shuts. -/
theorem since_append_cons {opens shuts : ρ → Prop} (told : List ρ) {record : ρ} {rest : List ρ}
    (hopens : opens record) (hrest : ∀ t ∈ rest, ¬ shuts t) :
    Since opens shuts (told ++ record :: rest) :=
  ⟨told, record, rest, rfl, hopens, hrest⟩

/-! ## The last write -/

/-- The inputs of `is` that `keeps` says count, each judged by the inputs before it, which for the
first are `earlier`. -/
def kept (keeps : List ι → ι → Bool) (earlier : List ι) : List ι → List ι
  | [] => []
  | i :: rest =>
    if keeps earlier i then i :: kept keeps (earlier ++ [i]) rest
    else kept keeps (earlier ++ [i]) rest

/-- What is kept, in two parts. -/
theorem kept_append (keeps : List ι → ι → Bool) (earlier is js : List ι) :
    kept keeps earlier (is ++ js) = kept keeps earlier is ++ kept keeps (earlier ++ is) js := by
  induction is generalizing earlier with
  | nil => rw [List.append_nil]; rfl
  | cons i is ih =>
    simp only [List.cons_append, kept, ih, List.append_assoc, List.nil_append]
    split <;> rfl

/-- The last input is kept or not, by those before it. -/
theorem kept_concat (keeps : List ι → ι → Bool) (is : List ι) (i : ι) :
    kept keeps [] (is ++ [i]) = kept keeps [] is ++ if keeps is i then [i] else [] := by
  rw [kept_append]
  rfl

/-- What is kept was there. -/
theorem mem_of_mem_kept {keeps : List ι → ι → Bool} {earlier is : List ι} {i : ι}
    (hi : i ∈ kept keeps earlier is) : i ∈ is := by
  induction is generalizing earlier with
  | nil => cases hi
  | cons j is ih =>
    unfold kept at hi
    split at hi
    · rcases List.mem_cons.mp hi with rfl | hi
      · exact List.mem_cons_self
      · exact List.mem_cons_of_mem _ (ih hi)
    · exact List.mem_cons_of_mem _ (ih hi)

/-- What is kept of relabelled inputs. -/
theorem kept_map {κ : Type} (f : κ → ι) (keeps : List ι → ι → Bool) (earlier ks : List κ) :
    (kept (fun earlier k => keeps (earlier.map f) (f k)) earlier ks).map f =
      kept keeps (earlier.map f) (ks.map f) := by
  induction ks generalizing earlier with
  | nil => rfl
  | cons k ks ih =>
    have hstep := ih (earlier ++ [k])
    rw [List.map_append, List.map_singleton] at hstep
    simp only [kept, List.map_cons, ← hstep]
    split <;> rfl

/-- What is kept of relabelled inputs, from the start. -/
theorem kept_map_nil {κ : Type} (f : κ → ι) (keeps : List ι → ι → Bool) (ks : List κ) :
    (kept (fun earlier k => keeps (earlier.map f) (f k)) [] ks).map f = kept keeps [] (ks.map f) :=
  kept_map f keeps [] ks

/-- The last input of a list that counts, read with `read`, else `initial`. -/
def lastRead {β : Type} (read : ι → β) (initial : β) (is : List ι) : β :=
  (is.getLast?.map read).getD initial

/-- The last value read, in two parts. -/
theorem lastRead_append {β : Type} (read : ι → β) (initial : β) (is js : List ι) :
    lastRead read initial (is ++ js) = lastRead read (lastRead read initial is) js := by
  unfold lastRead
  cases hjs : js.getLast? with
  | none => simp [List.getLast?_append, hjs]
  | some j => simp [List.getLast?_append, hjs]

/-- The last value read of relabelled inputs. -/
theorem lastRead_map {κ β : Type} (f : κ → ι) (read : ι → β) (initial : β) (ks : List κ) :
    lastRead read initial (ks.map f) = lastRead (read ∘ f) initial ks := by
  simp [lastRead, List.getLast?_map]

/-- Where an input that counts writes `read` of it and any other leaves the value, a run leaves what
the last input that counts wrote. `I` is what holds of a state after the inputs so far, which are a
prefix of `all`. -/
theorem value_after {β : Type} {I : List ι → σ → Prop} (value : σ → β)
    (keeps : List ι → ι → Bool) (read : ι → β) {all : List ι}
    (hstep : ∀ earlier i s, earlier ++ [i] <+: all → I earlier s →
      I (earlier ++ [i]) (m.step s i).1 ∧
        value (m.step s i).1 = if keeps earlier i then read i else value s)
    {s : σ} (hs : I [] s) :
    I all (m.after s all) ∧
      value (m.after s all) = lastRead read (value s) (kept keeps [] all) := by
  suffices ∀ is earlier s, earlier ++ is = all → I earlier s → I all (m.after s is) ∧
      value (m.after s is) = lastRead read (value s) (kept keeps earlier is) from this all [] s rfl hs
  intro is
  induction is with
  | nil =>
    intro earlier s hall hI
    rw [List.append_nil] at hall
    exact ⟨hall ▸ hI, rfl⟩
  | cons i is ih =>
    intro earlier s hall hI
    have hinit : earlier ++ [i] <+: all := ⟨is, by rw [← hall, List.append_assoc]; rfl⟩
    obtain ⟨hI', hvalue⟩ := hstep earlier i s hinit hI
    obtain ⟨hend, hrest⟩ := ih (earlier ++ [i]) _ (by rw [← hall, List.append_assoc]; rfl) hI'
    refine ⟨hend, ?_⟩
    rw [after_cons, hrest, hvalue]
    conv_rhs => rw [kept]
    split
    · exact (lastRead_append read (value s) [i] _).symm
    · rfl

end Machine

end Common
