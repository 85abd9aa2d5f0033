import Mathlib.Algebra.Order.Monoid.Defs
import Mathlib.Algebra.BigOperators.Group.List.Basic
import Mathlib.Data.List.Induction

/-!
# The lifecycle of an order

What is told of one order is a list of `News`. `Stage` is the state machine an order goes through,
and `Stage.follow` runs it over the news, with `none` for news the stage does not allow. `Legal` says
in plain terms what a lifecycle must be, and the machine follows legal news only (`legal_of_follow`).

Quantities are values of any linearly ordered commutative monoid.
-/

namespace Common

/-- One thing told of an order. `opened` is an acceptance that also introduces the order. -/
inductive News (V : Type)
  | opened (quantity : V)
  | accepted (quantity : V)
  | updated (quantity : V)
  | filled (volume : V)
  | canceled
  | rejected
deriving DecidableEq, Repr

/-- Where an order stands: not known yet, known and not accepted, accepted for `quantity` of which
`filled` is done, or over. -/
inductive Stage (V : Type)
  | unopened
  | waiting
  | working (quantity filled : V)
  | finished
deriving DecidableEq, Repr

namespace News

variable {V : Type}

def isAcceptance : News V → Bool
  | opened _ => true
  | accepted _ => true
  | _ => false

def isFill : News V → Bool
  | filled _ => true
  | _ => false

/-- The quantity the news tells, if it tells one. -/
def quantity? : News V → Option V
  | opened q => some q
  | accepted q => some q
  | updated q => some q
  | _ => none

/-- The volume the news fills. -/
def volume [Zero V] : News V → V
  | filled v => v
  | _ => 0

end News

namespace Stage

variable {V : Type}

def isWorking : Stage V → Bool
  | working _ _ => true
  | _ => false

/-- The quantity an order at this stage was last told to have. -/
def quantity? : Stage V → Option V
  | working q _ => some q
  | _ => none

/-- What is filled of an order at this stage. -/
def filled [Zero V] : Stage V → V
  | working _ f => f
  | _ => 0

/-- The quantity last told of an order that stood at `s` before `news`. -/
def told (s : Stage V) (news : List (News V)) : Option V :=
  news.foldl (fun q n => n.quantity?.or q) s.quantity?

variable [AddCommMonoid V]

/-- What is filled, after `news`, of an order that stood at `s`. -/
def done (s : Stage V) (news : List (News V)) : V := s.filled + (news.map News.volume).sum

/-- Whether `n`, told after `news`, ends an order that stood at `s`: its end without a fill, or the
fill that brings what is filled to the quantity last told. -/
def Ends [LE V] (s : Stage V) (news : List (News V)) : News V → Prop
  | .canceled => True
  | .rejected => True
  | .filled v => ∃ q, s.told news = some q ∧ q ≤ s.done news + v
  | _ => False

/-- A legal lifecycle of an order that stands at `s`. -/
structure Legal [LE V] (s : Stage V) (news : List (News V)) : Prop where
  accepted_once : (news.filter News.isAcceptance).length + (if s.isWorking then 1 else 0) ≤ 1
  accepted_before_fills : ∀ before n after, news = before ++ n :: after → n.isAcceptance →
    ∀ m ∈ before, m.isFill = false
  updated_once_accepted : ∀ before q after, news = before ++ .updated q :: after →
    s.isWorking ∨ ∃ m ∈ before, m.isAcceptance
  opened_first : s = unopened → ∀ n rest, news = n :: rest → ∃ q, n = .opened q
  nothing_after_end : ∀ before n after, news = before ++ n :: after → s.Ends before n → after = []

/-- At no point is more filled than the quantity last told. -/
def Covered [LE V] (s : Stage V) (news : List (News V)) : Prop :=
  ∀ before, before <+: news → ∀ q, s.told before = some q → s.done before ≤ q

variable [LinearOrder V]

/-- What one piece of news makes of a stage, if the stage allows it. -/
def next : Stage V → News V → Option (Stage V)
  | unopened, .opened q => some (working q 0)
  | waiting, .accepted q => some (working q 0)
  | waiting, .filled _ => some finished
  | waiting, .canceled => some finished
  | waiting, .rejected => some finished
  | working _ f, .updated q => some (working q f)
  | working q f, .filled v => some (if f + v < q then working q (f + v) else finished)
  | working _ _, .canceled => some finished
  | working _ _, .rejected => some finished
  | _, _ => none

/-- The stage after all of `news`, if each piece is allowed where it comes. -/
def follow (s : Stage V) : List (News V) → Option (Stage V)
  | [] => some s
  | n :: rest => (s.next n).bind fun s' => follow s' rest

@[simp] theorem follow_nil (s : Stage V) : s.follow [] = some s := rfl

/-- News are followed one by one. -/
theorem follow_cons (s : Stage V) (n : News V) (rest : List (News V)) :
    s.follow (n :: rest) = (s.next n).bind fun s' => s'.follow rest := rfl

/-- News are followed in two parts. -/
theorem follow_append (s : Stage V) (news news' : List (News V)) :
    s.follow (news ++ news') = (s.follow news).bind fun s' => s'.follow news' := by
  induction news generalizing s with
  | nil => rfl
  | cons n rest ih =>
    rw [List.cons_append, follow_cons, follow_cons, Option.bind_assoc]
    congr 1
    funext s'
    exact ih s'

/-- An order that is over is told of no more. -/
theorem follow_finished {news : List (News V)} {s : Stage V} (h : finished.follow news = some s) :
    news = [] := by
  cases news with
  | nil => rfl
  | cons n rest => simp [follow_cons, next] at h

/-- A piece of news comes where the stage before it allows it. -/
theorem follow_split {s t : Stage V} {before after : List (News V)} {n : News V}
    (h : s.follow (before ++ n :: after) = some t) :
    ∃ s₁ s₂, s.follow before = some s₁ ∧ s₁.next n = some s₂ ∧ s₂.follow after = some t := by
  rw [follow_append, Option.bind_eq_some_iff] at h
  obtain ⟨s₁, h₁, h⟩ := h
  rw [follow_cons, Option.bind_eq_some_iff] at h
  obtain ⟨s₂, h₂, h⟩ := h
  exact ⟨s₁, s₂, h₁, h₂, h⟩

omit [LinearOrder V] [AddCommMonoid V] in
/-- The quantity told last is that of the last news that tells one. -/
theorem told_append (s : Stage V) (news : List (News V)) (n : News V) :
    s.told (news ++ [n]) = n.quantity?.or (s.told news) := by
  simp [told]

omit [LinearOrder V] in
/-- The volume done adds up. -/
theorem done_append (s : Stage V) (news : List (News V)) (n : News V) :
    s.done (news ++ [n]) = s.done news + n.volume := by
  simp [done, add_assoc]

/-- What following `news` from `s` to `t` says about `news`. -/
structure Summary (s : Stage V) (news : List (News V)) (t : Stage V) : Prop where
  nil_of_early : t = unopened ∨ t = waiting → news = [] ∧ s = t
  working : ∀ q f, t = working q f → s.told news = some q ∧ s.done news = f
  accepted : t.isWorking → s.isWorking ∨ ∃ m ∈ news, m.isAcceptance

omit [LinearOrder V] in
/-- Without news a stage is as it was. -/
theorem summary_nil (s : Stage V) : Summary s [] s where
  nil_of_early _ := ⟨rfl, rfl⟩
  working := by
    rintro q f rfl
    exact ⟨rfl, by simp [done, filled]⟩
  accepted h := Or.inl h

/-- One news more is added to what was told. -/
theorem Summary.next {s t u : Stage V} {news : List (News V)} {n : News V} (h : Summary s news t)
    (hn : t.next n = some u) : Summary s (news ++ [n]) u where
  nil_of_early hu := by
    rcases hu with rfl | rfl <;> cases t <;> cases n <;> simp [Stage.next] at hn <;>
      (try split at hn) <;> simp at hn
  working := by
    rintro q f rfl
    rw [told_append, done_append]
    cases t with
    | unopened =>
      obtain ⟨rfl, rfl⟩ := h.nil_of_early (Or.inl rfl)
      cases n <;> simp [Stage.next] at hn
      obtain ⟨rfl, rfl⟩ := hn
      simp [News.quantity?, News.volume, done, filled]
    | waiting =>
      obtain ⟨rfl, rfl⟩ := h.nil_of_early (Or.inr rfl)
      cases n <;> simp [Stage.next] at hn
      obtain ⟨rfl, rfl⟩ := hn
      simp [News.quantity?, News.volume, done, filled]
    | working q' f' =>
      obtain ⟨htold, hdone⟩ := h.working q' f' rfl
      cases n <;> simp [Stage.next] at hn
      case updated =>
        obtain ⟨rfl, rfl⟩ := hn
        simp [News.quantity?, News.volume, hdone]
      case filled v =>
        split at hn
        · cases hn
          simp [News.quantity?, News.volume, htold, hdone]
        · cases hn
    | finished => simp [Stage.next] at hn
  accepted hu := by
    by_cases hn' : n.isAcceptance
    · exact Or.inr ⟨n, by simp, hn'⟩
    · have ht : t.isWorking := by
        cases t <;> cases n <;> simp_all [Stage.next, News.isAcceptance, isWorking] <;>
          subst hn <;> simp at hu
      rcases h.accepted ht with hs | ⟨m, hm, hma⟩
      · exact Or.inl hs
      · exact Or.inr ⟨m, by simp [hm], hma⟩

/-- A stage that news lead to sums them up. -/
theorem summary_of_follow {s t : Stage V} {news : List (News V)} (h : s.follow news = some t) :
    Summary s news t := by
  induction news using List.reverseRecOn generalizing t with
  | nil =>
    rw [follow_nil] at h
    cases h
    exact summary_nil s
  | append_singleton news n ih =>
    obtain ⟨t₁, t₂, h₁, h₂, h₃⟩ := follow_split h
    rw [follow_nil] at h₃
    cases h₃
    exact (ih h₁).next h₂

/-- An acceptance is the first thing told of an order, and of one not accepted before. -/
theorem acceptance_first {s t : Stage V} {before after : List (News V)} {n : News V}
    (h : s.follow (before ++ n :: after) = some t) (hn : n.isAcceptance) :
    before = [] ∧ s.isWorking = false := by
  obtain ⟨s₁, s₂, h₁, h₂, -⟩ := follow_split h
  have hs₁ : s₁ = unopened ∨ s₁ = waiting := by
    cases s₁ <;> cases n <;> simp_all [Stage.next, News.isAcceptance]
  obtain ⟨hnil, rfl⟩ := (summary_of_follow h₁).nil_of_early hs₁
  refine ⟨hnil, ?_⟩
  rcases hs₁ with rfl | rfl <;> rfl

/-- After the first news no acceptance is left. -/
theorem filter_acceptance_tail {s t : Stage V} {n : News V} {rest : List (News V)}
    (h : s.follow (n :: rest) = some t) : rest.filter News.isAcceptance = [] := by
  rw [List.filter_eq_nil_iff]
  intro m hm hacc
  obtain ⟨before, after, rfl⟩ := List.append_of_mem hm
  have hsplit : s.follow ((n :: before) ++ m :: after) = some t := by simpa using h
  exact absurd (acceptance_first hsplit hacc).1 (by simp)

/-- The machine follows legal lifecycles only. -/
theorem legal_of_follow {s t : Stage V} {news : List (News V)} (h : s.follow news = some t) :
    s.Legal news where
  accepted_once := by
    cases news with
    | nil => cases hs : s.isWorking <;> simp
    | cons n rest =>
      rw [List.filter_cons, filter_acceptance_tail h]
      split
      · rename_i hn
        have hsplit : s.follow ([] ++ n :: rest) = some t := h
        simp [(acceptance_first hsplit hn).2]
      · split <;> simp
  accepted_before_fills before n after hsplit hn m hm := by
    subst hsplit
    rw [(acceptance_first h hn).1] at hm
    cases hm
  updated_once_accepted before q after hsplit := by
    subst hsplit
    obtain ⟨s₁, s₂, h₁, h₂, -⟩ := follow_split h
    refine (summary_of_follow h₁).accepted ?_
    cases s₁ <;> simp_all [Stage.next, isWorking]
  opened_first hs n rest hnews := by
    subst hs hnews
    have hsplit : (unopened : Stage V).follow ([] ++ n :: rest) = some t := h
    obtain ⟨s₁, s₂, h₁, h₂, -⟩ := follow_split hsplit
    cases h₁
    cases n <;> simp_all [Stage.next]
  nothing_after_end before n after hsplit hend := by
    subst hsplit
    obtain ⟨s₁, s₂, h₁, h₂, h₃⟩ := follow_split h
    suffices hover : s₂ = finished by
      rw [hover] at h₃
      exact follow_finished h₃
    have hsum := summary_of_follow h₁
    cases n with
    | canceled => cases s₁ <;> simp_all [Stage.next]
    | rejected => cases s₁ <;> simp_all [Stage.next]
    | filled v =>
      obtain ⟨q, htold, hle⟩ := hend
      cases s₁ with
      | working q' f =>
        obtain ⟨htold', hdone⟩ := hsum.working q' f rfl
        rw [htold, Option.some.injEq] at htold'
        subst htold' hdone
        simp only [Stage.next, if_neg (not_lt.mpr hle), Option.some.injEq] at h₂
        exact h₂.symm
      | waiting => simpa [Stage.next] using h₂.symm
      | unopened => simp [Stage.next] at h₂
      | finished => simp [Stage.next] at h₂
    | opened q => exact hend.elim
    | accepted q => exact hend.elim
    | updated q => exact hend.elim

/-! ## Fills within the quantity -/

/-- Whether `n` keeps the filled part of an order at `s` within its quantity. -/
def Fits : Stage V → News V → Prop
  | working q f, .filled v => f + v ≤ q
  | working _ f, .updated q => f ≤ q
  | _, .opened q => 0 ≤ q
  | _, .accepted q => 0 ≤ q
  | _, _ => True

/-- Every piece of `news` fits the stage it is told at. -/
def AllFit (s : Stage V) : List (News V) → Prop
  | [] => True
  | n :: rest => s.Fits n ∧ ∀ s', s.next n = some s' → AllFit s' rest

/-- News fit in two parts. -/
theorem allFit_append {s : Stage V} {news news' : List (News V)} (h : s.AllFit news)
    (h' : ∀ t, s.follow news = some t → t.AllFit news') : s.AllFit (news ++ news') := by
  induction news generalizing s with
  | nil => exact h' s rfl
  | cons n rest ih =>
    refine ⟨h.1, fun s' hs' => ih (h.2 s' hs') fun t ht => h' t ?_⟩
    rw [follow_cons, hs']
    exact ht

/-- Each news fits the stage that those before it lead to. -/
theorem allFit_split {s s₁ : Stage V} {before after : List (News V)} {n : News V}
    (h : s.AllFit (before ++ n :: after)) (h₁ : s.follow before = some s₁) : s₁.Fits n := by
  induction before generalizing s with
  | nil =>
    cases h₁
    exact h.1
  | cons m rest ih =>
    rw [follow_cons, Option.bind_eq_some_iff] at h₁
    obtain ⟨s', hs', h₁⟩ := h₁
    exact ih (h.2 s' hs') h₁

/-- One more piece of news that fits keeps what is filled within the quantity told. -/
theorem done_le_told_next {s t u : Stage V} {news : List (News V)} {n : News V}
    (hsum : Summary s news t) (hn : t.next n = some u) (hfit : t.Fits n)
    (ih : ∀ q, s.told news = some q → s.done news ≤ q) :
    ∀ q, s.told (news ++ [n]) = some q → s.done (news ++ [n]) ≤ q := by
  intro q hq
  rw [told_append] at hq
  rw [done_append]
  cases n with
  | canceled => simpa [News.volume] using ih q (by simpa [News.quantity?] using hq)
  | rejected => simpa [News.volume] using ih q (by simpa [News.quantity?] using hq)
  | opened q' =>
    cases t <;> simp [Stage.next] at hn
    obtain ⟨rfl, rfl⟩ := hsum.nil_of_early (Or.inl rfl)
    obtain rfl : q' = q := by simpa [News.quantity?] using hq
    simpa [News.volume, done, filled, Fits] using hfit
  | accepted q' =>
    cases t <;> simp [Stage.next] at hn
    obtain ⟨rfl, rfl⟩ := hsum.nil_of_early (Or.inr rfl)
    obtain rfl : q' = q := by simpa [News.quantity?] using hq
    simpa [News.volume, done, filled, Fits] using hfit
  | updated q' =>
    cases t <;> simp [Stage.next] at hn
    rename_i q₀ f
    obtain rfl : q' = q := by simpa [News.quantity?] using hq
    rw [(hsum.working q₀ f rfl).2]
    simpa [News.volume, Fits] using hfit
  | filled v =>
    replace hq : s.told news = some q := by simpa [News.quantity?] using hq
    cases t with
    | working q₀ f =>
      obtain ⟨htold, hdone⟩ := hsum.working q₀ f rfl
      obtain rfl : q₀ = q := by simpa [htold] using hq
      rw [hdone]
      exact hfit
    | waiting =>
      obtain ⟨rfl, rfl⟩ := hsum.nil_of_early (Or.inr rfl)
      simp [told, quantity?] at hq
    | unopened => simp [Stage.next] at hn
    | finished => simp [Stage.next] at hn

/-- Where every piece of news fits, no more is filled than the quantity last told. -/
theorem covered_of_allFit {s t : Stage V} {news : List (News V)} (hs : ∀ q f, s = working q f → f ≤ q)
    (h : s.follow news = some t) (hfit : s.AllFit news) : s.Covered news := by
  rintro before ⟨after, rfl⟩
  induction before using List.reverseRecOn generalizing after with
  | nil =>
    intro q hq
    cases s <;> simp [told, quantity?] at hq
    subst hq
    simpa [done, filled] using hs _ _ rfl
  | append_singleton before n ih =>
    rw [List.append_assoc] at h hfit
    obtain ⟨s₁, s₂, h₁, h₂, -⟩ := follow_split h
    exact done_le_told_next (summary_of_follow h₁) h₂ (allFit_split hfit h₁)
      (ih (n :: after) h hfit)

end Stage

end Common
