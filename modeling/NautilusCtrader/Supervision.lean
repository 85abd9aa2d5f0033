import NautilusCtrader.Common.Machine
import Mathlib.Data.List.Induction
import Mathlib.Tactic.Common

/-!
# Starting and stopping a session

`start` creates the session's supervisor once no `stop` is in progress, and `stop` cancels it and waits
until it ended. Either may wait while others are called, and the last one called wins: a `start` that
waited does nothing if a `stop` was called meanwhile. The supervisor itself brings the session up again
and again; it ends of itself only where the delay of its backoff is too large for a float
(`backOffRaises`), after which the session is not supervised although it was started
(`unsupervised_after_failures`). Without that the last call wins in every order (`lastWins_of_endures`).
-/

namespace NautilusCtrader

open Common

namespace Supervision

/-! ## The supervisor -/

/-- How a supervisor's round ends: its bring-up fails, or the session it brought up is lost. -/
inductive Round
  | failed
  /-- It was up long enough, or its loss was asked for. -/
  | lost
  | lostSoon
deriving DecidableEq, Repr

/-- A supervisor's task that is not done. -/
structure Supervisor where
  id : ℕ
  /-- Its failures in a row. -/
  attempt : ℕ := 0
  cancelled : Bool := false
deriving DecidableEq, Repr

/-- A supervisor once the one `captured` was cancelled. -/
def Supervisor.cancelIf (captured : Option ℕ) (t : Supervisor) : Supervisor :=
  { t with cancelled := t.cancelled || decide (captured = some t.id) }

/-- `_back_off` raises: it multiplies a float by `2 ** (attempt - 1)`, and no float holds `2 ** 1024`. -/
def backOffRaises (attempt : ℕ) : Bool := decide (1024 ≤ attempt - 1)

/-- `_supervise` over one round: the attempts it has counted, unless the task ends. -/
def supervise (attempt : ℕ) : Round → Option ℕ
  | .failed => if backOffRaises (attempt + 1) then none else some (attempt + 1)
  | .lost => some 0
  | .lostSoon =>
    if backOffRaises (attempt + 1) then
      -- What it raises is caught as a failure of the round, which backs off as well.
      if backOffRaises (attempt + 2) then none else some (attempt + 2)
    else some (attempt + 1)

/-! ## The session's calls -/

/-- A call of `start` that waits for `_stop_idle`, with the epoch it read. -/
structure WaitingStart where
  epoch : ℕ
  /-- The event was set since, and the call has not resumed yet. -/
  woken : Bool := false
deriving DecidableEq, Repr

def WaitingStart.wake (w : WaitingStart) : WaitingStart := { w with woken := true }

/-- The session's fields for its supervision, and its calls in progress. -/
structure Session where
  stopEpoch : ℕ := 0
  stopsInProgress : ℕ := 0
  stopIdle : Bool := true
  stopping : Bool := false
  /-- `_supervisor`, which may be done. -/
  supervisor : Option ℕ := none
  /-- The supervisors' tasks that are not done. -/
  alive : List Supervisor := []
  created : ℕ := 0
  starts : List WaitingStart := []
  /-- The calls of `stop` that wait, each with the supervisor it captured. -/
  stops : List (Option ℕ) := []
deriving DecidableEq, Repr

namespace Session

variable (s : Session)

/-- The task of a supervisor is done. -/
def done (id : ℕ) : Bool := s.alive.all (·.id ≠ id)

/-- The session has a supervisor that runs. -/
def supervised : Bool := s.supervisor.any (!s.done ·)

/-- `start` after its wait; it tells of the supervisor it creates. -/
def startSupervisor : Session × List ℕ :=
  if s.supervised then (s, [])
  else
    ({ s with
        stopping := false
        supervisor := some s.created
        alive := s.alive ++ [{ id := s.created }]
        created := s.created + 1 }, [s.created])

/-- `start` up to its wait, or to its end if it has none. -/
def start : Session × List ℕ :=
  if s.stopIdle then s.startSupervisor
  else ({ s with starts := s.starts ++ [{ epoch := s.stopEpoch }] }, [])

/-- A woken `start` resumes. -/
def resume (i : ℕ) : Session × List ℕ :=
  match s.starts[i]? with
  | some ⟨epoch, true⟩ =>
    let s' := { s with starts := s.starts.eraseIdx i }
    if s'.stopEpoch ≠ epoch then (s', []) else s'.startSupervisor
  | _ => (s, [])

/-- The end of `stop`. -/
def endStop : Session :=
  let s' := { s with stopsInProgress := s.stopsInProgress - 1 }
  if s'.stopsInProgress = 0 then
    { s' with stopIdle := true, starts := s.starts.map WaitingStart.wake }
  else s'

/-- `stop` up to its wait; `closing` says whether it has more to wait for than the supervisor. -/
def stop (closing : Bool) : Session :=
  let captured := s.supervisor
  let s' :=
    { s with
      stopEpoch := s.stopEpoch + 1
      stopsInProgress := s.stopsInProgress + 1
      stopIdle := false
      stopping := true
      supervisor := none
      alive := s.alive.map (Supervisor.cancelIf captured) }
  if captured.isSome || closing then { s' with stops := s.stops ++ [captured] } else s'.endStop

/-- A `stop` has waited for what it captured. -/
def finish (i : ℕ) : Session :=
  match s.stops[i]? with
  | some captured =>
    if captured.all s.done then { s with stops := s.stops.eraseIdx i }.endStop else s
  | none => s

/-- A supervisor goes a round. -/
def superviseRound (i : ℕ) (round : Round) : Session :=
  match s.alive[i]? with
  | none => s
  | some t =>
    if t.cancelled then s
    else if s.stopping then { s with alive := s.alive.eraseIdx i }
    else
      match supervise t.attempt round with
      | none => { s with alive := s.alive.eraseIdx i }
      | some attempt => { s with alive := s.alive.set i { t with attempt := attempt } }

/-- A cancelled supervisor ends. -/
def unwind (i : ℕ) : Session :=
  match s.alive[i]? with
  | none => s
  | some t => if t.cancelled then { s with alive := s.alive.eraseIdx i } else s

end Session

/-! ## Runs -/

/-- A call of the session. -/
inductive Call
  | start
  | stop
deriving DecidableEq, Repr

/-- What happens. -/
inductive Input
  | start
  | stop (closing : Bool)
  | resume (i : ℕ)
  | finish (i : ℕ)
  | round (i : ℕ) (round : Round)
  | unwind (i : ℕ)
deriving DecidableEq, Repr

/-- The call an input issues. -/
def Input.call? : Input → Option Call
  | .start => some .start
  | .stop _ => some .stop
  | _ => none

/-- The call issued last. -/
def lastCall (inputs : List Input) : Option Call := (inputs.filterMap Input.call?).getLast?

/-- The session as a machine; it tells of the supervisors it creates. -/
def machine : Machine Session Input ℕ where
  step s
    | .start => s.start
    | .stop closing => (s.stop closing, [])
    | .resume i => s.resume i
    | .finish i => (s.finish i, [])
    | .round i round => (s.superviseRound i round, [])
    | .unwind i => (s.unwind i, [])

/-- In a run from a new session, whenever all calls have returned the session is supervised just if the
last call was a `start`, two supervisors are never there at once, and none is created while a `stop` is
in progress. -/
structure LastWins (inputs : List Input) : Prop where
  settles : ∀ before later, inputs = before ++ later →
    (machine.after {} before).starts = [] → (machine.after {} before).stops = [] →
      ((machine.after {} before).supervised = true ↔ lastCall before = some .start)
  single : ∀ before later, inputs = before ++ later → (machine.after {} before).alive.length ≤ 1
  apart : ∀ before input later, inputs = before ++ input :: later →
    (machine.step (machine.after {} before) input).2 ≠ [] → (machine.after {} before).stops = []

/-- The condition on one step: no supervisor comes to its 1025th failure in a row. -/
def Endures (s : Session) : Input → Prop
  | .round i .failed | .round i .lostSoon => ∀ t ∈ s.alive[i]?, t.attempt < 1024
  | _ => True

instance (s : Session) (input : Input) : Decidable (Endures s input) := by
  unfold Endures
  split <;> infer_instance

/-! ## What a run keeps -/

/-- The back-off raises from the 1025th attempt on, where its power overflows. -/
theorem backOffRaises_iff (attempt : ℕ) : backOffRaises attempt = true ↔ 1025 ≤ attempt := by
  unfold backOffRaises
  rw [decide_eq_true_eq]
  omega

/-- A supervisor below the 1025th failure goes on. -/
theorem supervise_isSome {attempt : ℕ} {round : Round} (h : round ≠ .lost → attempt < 1024) :
    (supervise attempt round).isSome = true := by
  have hgoes (hlt : attempt < 1024) : ¬ backOffRaises (attempt + 1) = true := by
    rw [backOffRaises_iff]
    omega
  cases round with
  | failed =>
    show (ite _ _ _ : Option ℕ).isSome = true
    rw [if_neg (hgoes (h (by decide)))]
    rfl
  | lost => rfl
  | lostSoon =>
    show (ite _ _ _ : Option ℕ).isSome = true
    rw [if_neg (hgoes (h (by decide)))]
    rfl

/-- What holds between two steps, whatever supervisors end: `last` is the call issued last. -/
structure Ordered (last : Option Call) (s : Session) : Prop where
  counted : s.stopsInProgress = s.stops.length
  idle : s.stopIdle = true ↔ s.stops = []
  epochs : ∀ w ∈ s.starts, w.epoch ≤ s.stopEpoch
  /-- A woken `start` that no `stop` overtook finds none in progress. -/
  woken : ∀ w ∈ s.starts, w.woken = true → w.epoch = s.stopEpoch → s.stops = []
  torn : s.stops ≠ [] → s.supervisor = none
  named : ∀ t ∈ s.alive, t.cancelled = false → s.supervisor = some t.id ∧ s.stopping = false
  /-- A cancelled supervisor is waited for. -/
  awaited : ∀ t ∈ s.alive, t.cancelled = true → some t.id ∈ s.stops
  single : s.alive.length ≤ 1
  stopped : last ≠ some .start → s.supervisor = none ∧ ∀ w ∈ s.starts, w.epoch < s.stopEpoch

/-- After a `start` there is a supervisor, or a `start` that no `stop` overtook still waits. -/
def Upheld (last : Option Call) (s : Session) : Prop :=
  last = some .start → (∃ t ∈ s.alive, t.cancelled = false) ∨ ∃ w ∈ s.starts, w.epoch = s.stopEpoch

section Steps

variable {last : Option Call} {s : Session}

/-- A task is done when it is not among those alive. -/
theorem Session.done_iff {id : ℕ} : s.done id = true ↔ ∀ t ∈ s.alive, t.id ≠ id := by
  unfold Session.done
  rw [List.all_eq_true]
  simp only [decide_eq_true_eq]

/-- A session is supervised while its supervisor is alive. -/
theorem Session.supervised_iff :
    s.supervised = true ↔ ∃ t ∈ s.alive, s.supervisor = some t.id := by
  unfold Session.supervised
  cases hsup : s.supervisor with
  | none =>
    simp only [Option.any_none, Bool.false_eq_true, false_iff, not_exists, not_and]
    intro t _ hnone
    cases hnone
  | some id =>
    rw [Option.any_some, Bool.not_eq_true', ← Bool.not_eq_true, Session.done_iff]
    constructor
    · intro hlive
      by_contra hno
      refine hlive fun t ht hid => hno ⟨t, ht, ?_⟩
      rw [hid]
    · rintro ⟨t, ht, hid⟩ hdone
      exact hdone t ht (Option.some.inj hid).symm

/-- With no `stop` in progress, the session is supervised just if a supervisor is there. -/
theorem Ordered.supervised_iff (h : Ordered last s) (hstops : s.stops = []) :
    s.supervised = true ↔ s.alive ≠ [] := by
  have huncancelled (t : Supervisor) (ht : t ∈ s.alive) : t.cancelled = false := by
    by_contra hcancelled
    have hmem := h.awaited t ht (by simpa using hcancelled)
    rw [hstops] at hmem
    exact absurd hmem List.not_mem_nil
  rw [Session.supervised_iff]
  constructor
  · rintro ⟨t, ht, -⟩ hnil
    rw [hnil] at ht
    exact absurd ht List.not_mem_nil
  · intro hne
    obtain ⟨t, ht⟩ := List.exists_mem_of_ne_nil _ hne
    exact ⟨t, ht, (h.named t ht (huncancelled t ht)).1⟩

/-- With no `stop` in progress, no supervisor there is cancelled. -/
theorem Ordered.uncancelled (h : Ordered last s) (hstops : s.stops = []) (t : Supervisor)
    (ht : t ∈ s.alive) : t.cancelled = false := by
  by_contra hcancelled
  have hmem := h.awaited t ht (by simpa using hcancelled)
  rw [hstops] at hmem
  exact absurd hmem List.not_mem_nil

/-- A `start` whose wait is over. -/
theorem Ordered.startSupervisor (h : Ordered last s) (hstops : s.stops = []) :
    Ordered (some .start) s.startSupervisor.1 ∧ ∃ t ∈ s.startSupervisor.1.alive, t.cancelled = false := by
  have hiff := h.supervised_iff hstops
  unfold Session.startSupervisor
  by_cases hsup : s.supervised = true
  · rw [if_pos hsup]
    obtain ⟨t, ht⟩ := List.exists_mem_of_ne_nil _ (hiff.mp hsup)
    exact ⟨{ h with stopped := fun hne => absurd rfl hne }, t, ht, h.uncancelled hstops t ht⟩
  · rw [if_neg hsup]
    have hnil : s.alive = [] := by
      by_contra hne
      exact hsup (hiff.mpr hne)
    refine ⟨?_, ⟨s.created, 0, false⟩, ?_, rfl⟩
    · exact
        { counted := h.counted
          idle := h.idle
          epochs := h.epochs
          woken := h.woken
          torn := fun hne => absurd hstops hne
          named := by
            intro t ht _
            rw [hnil] at ht
            rw [List.mem_singleton.mp ht]
            exact ⟨rfl, rfl⟩
          awaited := by
            intro t ht hcancelled
            rw [hnil] at ht
            rw [List.mem_singleton.mp ht] at hcancelled
            cases hcancelled
          single := by simp [hnil]
          stopped := fun hne => absurd rfl hne }
    · exact List.mem_append_right _ List.mem_cons_self

/-- A start. -/
theorem Ordered.start (h : Ordered last s) : Ordered (some .start) s.start.1 := by
  unfold Session.start
  by_cases hidle : s.stopIdle = true
  · rw [if_pos hidle]
    exact (h.startSupervisor (h.idle.mp hidle)).1
  · rw [if_neg hidle]
    exact
      { counted := h.counted
        idle := h.idle
        epochs := by
          intro w hw
          rcases List.mem_append.mp hw with hold | hnew
          · exact h.epochs w hold
          · obtain rfl := List.mem_singleton.mp hnew
            exact Nat.le_refl _
        woken := by
          intro w hw hwoken hepoch
          rcases List.mem_append.mp hw with hold | hnew
          · exact h.woken w hold hwoken hepoch
          · rw [List.mem_singleton.mp hnew] at hwoken
            cases hwoken
        torn := h.torn
        named := h.named
        awaited := h.awaited
        single := h.single
        stopped := fun hne => absurd rfl hne }

/-- A `start` that returns without a supervisor of its own leaves the rest. -/
theorem Ordered.drop (h : Ordered last s) (i : ℕ) :
    Ordered last { s with starts := s.starts.eraseIdx i } :=
  { h with
    epochs := fun w hw => h.epochs w (List.mem_of_mem_eraseIdx hw)
    woken := fun w hw => h.woken w (List.mem_of_mem_eraseIdx hw)
    stopped := fun hne =>
      ⟨(h.stopped hne).1, fun w hw => (h.stopped hne).2 w (List.mem_of_mem_eraseIdx hw)⟩ }

/-- A start that waited goes on. -/
theorem Ordered.resume (h : Ordered last s) (i : ℕ) : Ordered last (s.resume i).1 := by
  unfold Session.resume
  split
  case h_2 => exact h
  case h_1 epoch hat =>
    have hw : ⟨epoch, true⟩ ∈ s.starts := List.mem_of_getElem? hat
    dsimp only
    by_cases hepoch : s.stopEpoch ≠ epoch
    · rw [if_pos hepoch]
      exact h.drop i
    · rw [if_neg hepoch]
      rw [not_not] at hepoch
      have hlast : last = some .start := by
        by_contra hne
        exact absurd ((h.stopped hne).2 _ hw) (by rw [hepoch]; exact Nat.lt_irrefl _)
      rw [hlast]
      exact ((h.drop i).startSupervisor (h.woken _ hw rfl hepoch.symm)).1

/-- What is left of a `stop` that has nothing more to wait for, `s` being the session as it waits. -/
theorem Ordered.endStop {s' : Session} (h : Ordered last s') (captured : Option ℕ) (i : ℕ)
    (hat : s'.stops[i]? = some captured) (hdone : ∀ id ∈ captured, ∀ t ∈ s'.alive, t.id ≠ id) :
    Ordered last { s' with stops := s'.stops.eraseIdx i }.endStop := by
  have hlt : i < s'.stops.length := by
    by_contra hge
    rw [List.getElem?_eq_none (by omega)] at hat
    cases hat
  have hlength : (s'.stops.eraseIdx i).length = s'.stopsInProgress - 1 := by
    rw [List.length_eraseIdx_of_lt hlt, h.counted]
  have hne : s'.stops ≠ [] := by
    intro hnil
    rw [hnil] at hlt
    exact absurd hlt (Nat.not_lt_zero i)
  have hawaited (t : Supervisor) (ht : t ∈ s'.alive) (hcancelled : t.cancelled = true) :
      some t.id ∈ s'.stops.eraseIdx i := by
    obtain ⟨j, hj⟩ := List.getElem?_of_mem (h.awaited t ht hcancelled)
    refine List.mem_eraseIdx_iff_getElem?.mpr ⟨j, fun hji => ?_, hj⟩
    rw [hji, hat] at hj
    exact hdone t.id (Option.some.inj hj) t ht rfl
  have hover {w : WaitingStart} (hw : w ∈ s'.starts) (hwoken : w.woken = true) :
      w.epoch ≠ s'.stopEpoch := fun hepoch => hne (h.woken w hw hwoken hepoch)
  unfold Session.endStop
  dsimp only
  -- the last stop wakes the starts that waited; another leaves them waiting
  by_cases hzero : s'.stopsInProgress - 1 = 0
  · rw [if_pos hzero]
    have hnil : s'.stops.eraseIdx i = [] := List.length_eq_zero_iff.mp (hlength.trans hzero)
    exact
      { counted := hlength.symm
        idle := ⟨fun _ => hnil, fun _ => rfl⟩
        epochs := by
          intro w hw
          obtain ⟨w', hw', rfl⟩ := List.mem_map.mp hw
          exact h.epochs w' hw'
        woken := fun _ _ _ _ => hnil
        torn := fun hstops => absurd hnil hstops
        named := h.named
        awaited := hawaited
        single := h.single
        stopped := by
          intro hlast
          refine ⟨(h.stopped hlast).1, fun w hw => ?_⟩
          obtain ⟨w', hw', rfl⟩ := List.mem_map.mp hw
          exact (h.stopped hlast).2 w' hw' }
  · rw [if_neg hzero]
    have hrest : s'.stops.eraseIdx i ≠ [] := by
      intro hnil
      rw [hnil] at hlength
      exact hzero hlength.symm
    have hbusy : ¬ s'.stopIdle = true := fun hidle => hne (h.idle.mp hidle)
    exact
      { counted := hlength.symm
        idle := ⟨fun hidle => absurd hidle hbusy, fun hnil => absurd hnil hrest⟩
        epochs := h.epochs
        woken := fun w hw hwoken hepoch => absurd hepoch (hover hw hwoken)
        torn := fun _ => h.torn hne
        named := h.named
        awaited := hawaited
        single := h.single
        stopped := h.stopped }

/-- A `stop` as it waits, or would. -/
theorem Ordered.beginStop (h : Ordered last s) : Ordered (some .stop)
    { s with
      stopEpoch := s.stopEpoch + 1
      stopsInProgress := s.stopsInProgress + 1
      stopIdle := false
      stopping := true
      supervisor := none
      alive := s.alive.map (Supervisor.cancelIf s.supervisor)
      stops := s.stops ++ [s.supervisor] } := by
  have hne : s.stops ++ [s.supervisor] ≠ [] := List.append_ne_nil_of_right_ne_nil _ (by simp)
  have hlt (w : WaitingStart) (hw : w ∈ s.starts) : w.epoch < s.stopEpoch + 1 :=
    Nat.lt_succ_of_le (h.epochs w hw)
  have hall (t : Supervisor) (ht : t ∈ s.alive.map (Supervisor.cancelIf s.supervisor)) :
      t.cancelled = true := by
    obtain ⟨t', ht', rfl⟩ := List.mem_map.mp ht
    cases hcancelled : t'.cancelled with
    | true => simp [Supervisor.cancelIf, hcancelled]
    | false => simp [Supervisor.cancelIf, (h.named t' ht' hcancelled).1]
  exact
    { counted := by simp [h.counted]
      idle := ⟨fun hidle => Bool.noConfusion hidle, fun hnil => absurd hnil hne⟩
      epochs := fun w hw => Nat.le_of_lt (hlt w hw)
      woken := fun w hw _ hepoch => absurd hepoch (Nat.ne_of_lt (hlt w hw))
      torn := fun _ => rfl
      named := by
        intro t ht hcancelled
        rw [hall t ht] at hcancelled
        cases hcancelled
      awaited := by
        intro t ht _
        obtain ⟨t', ht', rfl⟩ := List.mem_map.mp ht
        cases hcancelled : t'.cancelled with
        | true => exact List.mem_append_left _ (h.awaited t' ht' hcancelled)
        | false =>
          rw [(h.named t' ht' hcancelled).1]
          exact List.mem_append_right _ List.mem_cons_self
      single := by
        rw [List.length_map]
        exact h.single
      stopped := fun _ => ⟨rfl, fun w hw => hlt w hw⟩ }

/-- A stop. -/
theorem Ordered.stop (h : Ordered last s) (closing : Bool) : Ordered (some .stop) (s.stop closing) := by
  have hbegun := h.beginStop
  unfold Session.stop
  dsimp only
  by_cases hwaits : (s.supervisor.isSome || closing) = true
  · rw [if_pos hwaits]
    exact hbegun
  · rw [if_neg hwaits]
    have hnone : s.supervisor = none := by
      rw [Bool.or_eq_true, not_or] at hwaits
      simpa using hwaits.1
    -- it ends as one that waited for nothing would
    have hended := hbegun.endStop s.supervisor s.stops.length (by simp)
      (by rw [hnone]; intro id hid; cases hid)
    simp only [List.eraseIdx_append_of_length_le (Nat.le_refl _), Nat.sub_self, List.eraseIdx_cons_zero,
      List.append_nil] at hended
    exact hended

/-- A task ends. -/
theorem Ordered.finish (h : Ordered last s) (i : ℕ) : Ordered last (s.finish i) := by
  unfold Session.finish
  cases hat : s.stops[i]? with
  | none => exact h
  | some captured =>
    dsimp only
    by_cases hdone : captured.all s.done = true
    · rw [if_pos hdone]
      refine h.endStop captured i hat fun id hid => ?_
      rw [Option.mem_def] at hid
      rw [hid, Option.all_some] at hdone
      exact Session.done_iff.mp hdone
    · rw [if_neg hdone]
      exact h

/-- A supervisor that ends, or goes on, leaves the rest. -/
theorem Ordered.erase (h : Ordered last s) (i : ℕ) :
    Ordered last { s with alive := s.alive.eraseIdx i } :=
  { h with
    named := fun t ht => h.named t (List.mem_of_mem_eraseIdx ht)
    awaited := fun t ht => h.awaited t (List.mem_of_mem_eraseIdx ht)
    single := Nat.le_trans (List.length_eraseIdx_le _ _) h.single }

/-- A round of the supervisor. -/
theorem Ordered.superviseRound (h : Ordered last s) (i : ℕ) (round : Round) :
    Ordered last (s.superviseRound i round) := by
  unfold Session.superviseRound
  cases hat : s.alive[i]? with
  | none => exact h
  | some t =>
    have ht : t ∈ s.alive := List.mem_of_getElem? hat
    dsimp only
    split
    · exact h
    · rename_i hcancelled
      split
      · exact h.erase i
      · split
        · exact h.erase i
        · rename_i attempt _
          have hmem {t' : Supervisor} (ht' : t' ∈ s.alive.set i { t with attempt := attempt }) :
              t' ∈ s.alive ∨ t' = { t with attempt := attempt } :=
            List.mem_or_eq_of_mem_set ht'
          exact
            { h with
              named := by
                intro t' ht' hlive
                rcases hmem ht' with hold | rfl
                · exact h.named t' hold hlive
                · exact h.named t ht hlive
              awaited := by
                intro t' ht' hover
                rcases hmem ht' with hold | rfl
                · exact h.awaited t' hold hover
                · exact absurd hover hcancelled
              single := by
                rw [List.length_set]
                exact h.single }

/-- A cancelled supervisor unwinds. -/
theorem Ordered.unwind (h : Ordered last s) (i : ℕ) : Ordered last (s.unwind i) := by
  unfold Session.unwind
  split
  · exact h
  · split
    · exact h.erase i
    · exact h

/-- What a step keeps. -/
theorem Ordered.step (h : Ordered last s) (input : Input) :
    Ordered (input.call?.or last) (machine.step s input).1 := by
  cases input with
  | start => exact h.start
  | stop closing => exact h.stop closing
  | resume i => exact h.resume i
  | finish i => exact h.finish i
  | round i round => exact h.superviseRound i round
  | unwind i => exact h.unwind i

/-- At most one supervisor is alive. -/
theorem Ordered.only (h : Ordered last s) {t t' : Supervisor} (ht : t ∈ s.alive) (ht' : t' ∈ s.alive) :
    t = t' := by
  have hsingle := h.single
  revert ht ht' hsingle
  generalize s.alive = alive
  intro ht ht' hsingle
  match alive with
  | [] => cases ht
  | [_] => rw [List.mem_singleton.mp ht, List.mem_singleton.mp ht']
  | _ :: _ :: _ => simp at hsingle

/-- A start that waited goes on. -/
theorem Upheld.resume (hup : Upheld last s) (h : Ordered last s) (i : ℕ) :
    Upheld last (s.resume i).1 := by
  intro hlast
  unfold Session.resume
  split
  case h_2 => exact hup hlast
  case h_1 epoch hat =>
    have hw : ⟨epoch, true⟩ ∈ s.starts := List.mem_of_getElem? hat
    dsimp only
    by_cases hepoch : s.stopEpoch ≠ epoch
    · rw [if_pos hepoch]
      rcases hup hlast with halive | ⟨w, hin, hcurrent⟩
      · exact .inl halive
      · obtain ⟨j, hj⟩ := List.getElem?_of_mem hin
        refine .inr ⟨w, List.mem_eraseIdx_iff_getElem?.mpr ⟨j, fun hji => ?_, hj⟩, hcurrent⟩
        rw [hji, hat] at hj
        rw [← Option.some.inj hj] at hcurrent
        exact hepoch hcurrent.symm
    · rw [if_neg hepoch]
      rw [not_not] at hepoch
      exact .inl ((h.drop i).startSupervisor (h.woken _ hw rfl hepoch.symm)).2

/-- The end of a stop takes nothing from what the last call asked for. -/
theorem Session.endStop_kept {s' : Session} {last : Option Call} (h : Upheld last s') :
    Upheld last s'.endStop := by
  intro hlast
  unfold Session.endStop
  dsimp only
  split
  · rcases h hlast with halive | ⟨w, hw, hepoch⟩
    · exact .inl halive
    · exact .inr ⟨w.wake, List.mem_map_of_mem hw, hepoch⟩
  · exact h hlast

/-- A round of the supervisor that does not raise. -/
theorem Upheld.superviseRound (hup : Upheld last s) (h : Ordered last s) (i : ℕ) (round : Round)
    (hendures : Endures s (.round i round)) : Upheld last (s.superviseRound i round) := by
  intro hlast
  unfold Session.superviseRound
  cases hat : s.alive[i]? with
  | none => exact hup hlast
  | some t =>
    have ht : t ∈ s.alive := List.mem_of_getElem? hat
    dsimp only
    split
    · exact hup hlast
    · rename_i hcancelled
      rw [Bool.not_eq_true] at hcancelled
      rw [if_neg (by rw [(h.named t ht hcancelled).2]; decide)]
      have hgoes : (supervise t.attempt round).isSome = true := by
        refine supervise_isSome fun hround => ?_
        cases round with
        | failed => exact hendures t hat
        | lost => exact absurd rfl hround
        | lostSoon => exact hendures t hat
      obtain ⟨attempt, hattempt⟩ := Option.isSome_iff_exists.mp hgoes
      rw [hattempt]
      obtain ⟨hlt, -⟩ := List.getElem?_eq_some_iff.mp hat
      exact .inl ⟨_, List.mem_set hlt _, hcancelled⟩

/-- A cancelled supervisor unwinds. -/
theorem Upheld.unwind (hup : Upheld last s) (h : Ordered last s) (i : ℕ) :
    Upheld last (s.unwind i) := by
  intro hlast
  unfold Session.unwind
  split
  · exact hup hlast
  · rename_i t hat
    split
    · rename_i hcancelled
      rcases hup hlast with ⟨t', ht', hlive⟩ | hwaits
      · -- the one that is cancelled is the only one
        rw [h.only ht' (List.mem_of_getElem? hat), hcancelled] at hlive
        cases hlive
      · exact .inr hwaits
    · exact hup hlast

/-- A step keeps the supervisor of a `start` there, or its call waiting, unless a supervisor ends of
itself. -/
theorem Upheld.step (hup : Upheld last s) (h : Ordered last s) (input : Input)
    (hendures : Endures s input) : Upheld (input.call?.or last) (machine.step s input).1 := by
  cases input with
  | start =>
    intro _
    show (∃ t ∈ s.start.1.alive, _) ∨ ∃ w ∈ s.start.1.starts, w.epoch = s.start.1.stopEpoch
    unfold Session.start
    by_cases hidle : s.stopIdle = true
    · rw [if_pos hidle]
      exact .inl (h.startSupervisor (h.idle.mp hidle)).2
    · rw [if_neg hidle]
      exact .inr ⟨_, List.mem_append_right _ List.mem_cons_self, rfl⟩
  | stop closing =>
    intro hlast
    cases hlast
  | resume i => exact hup.resume h i
  | finish i =>
    show Upheld last (s.finish i)
    unfold Session.finish
    split
    · split
      · exact Session.endStop_kept hup
      · exact hup
    · exact hup
  | round i round => exact hup.superviseRound h i round hendures
  | unwind i => exact hup.unwind h i

end Steps

/-- The last call of a longer run. -/
theorem lastCall_concat (inputs : List Input) (input : Input) :
    lastCall (inputs ++ [input]) = input.call?.or (lastCall inputs) := by
  unfold lastCall
  rw [List.filterMap_append, List.getLast?_append]
  congr 1
  cases input <;> rfl

/-- What holds after a run from a new session. -/
theorem ordered (inputs : List Input) : Ordered (lastCall inputs) (machine.after {} inputs) := by
  induction inputs using List.reverseRecOn with
  | nil =>
    refine ⟨rfl, ?_, ?_, ?_, ?_, ?_, ?_, ?_, ?_⟩
    · exact ⟨fun _ => rfl, fun _ => rfl⟩
    · exact fun w hw => absurd hw List.not_mem_nil
    · exact fun w hw => absurd hw List.not_mem_nil
    · exact fun hne => absurd rfl hne
    · exact fun t ht => absurd ht List.not_mem_nil
    · exact fun t ht => absurd ht List.not_mem_nil
    · exact Nat.zero_le 1
    · exact fun _ => ⟨rfl, fun w hw => absurd hw List.not_mem_nil⟩
  | append_singleton inputs input ih =>
    rw [lastCall_concat, Machine.after_append]
    exact ih.step input

/-- What the last call asked for is upheld in every run. -/
theorem upheld {inputs : List Input} (h : machine.Always Endures {} inputs) :
    Upheld (lastCall inputs) (machine.after {} inputs) := by
  induction inputs using List.reverseRecOn with
  | nil => exact fun hlast => absurd hlast (by decide)
  | append_singleton inputs input ih =>
    rw [Machine.always_append] at h
    rw [lastCall_concat, Machine.after_append]
    exact (ih h.1).step (ordered inputs) input h.2.1

/-- **The last call wins.** In every run in which no supervisor fails so often in a row that it ends of
itself, whenever all calls have returned the session is supervised just if the last call was a `start`;
two supervisors are never there at once, and none is created while a `stop` is in progress. -/
theorem lastWins_of_endures (inputs : List Input) (h : machine.Always Endures {} inputs) :
    LastWins inputs := by
  constructor
  · intro before later hsplit hstarts hstops
    have hordered := ordered before
    rw [hordered.supervised_iff hstops]
    constructor
    · intro halive
      by_contra hlast
      obtain ⟨t, ht⟩ := List.exists_mem_of_ne_nil _ halive
      have hnamed := hordered.named t ht (hordered.uncancelled hstops t ht)
      rw [(hordered.stopped hlast).1] at hnamed
      cases hnamed.1
    · intro hlast
      rw [hsplit, Machine.always_append] at h
      rcases upheld h.1 hlast with ⟨t, ht, -⟩ | ⟨w, hw, -⟩
      · exact List.ne_nil_of_mem ht
      · rw [hstarts] at hw
        exact absurd hw List.not_mem_nil
  · intro before _ _
    exact (ordered before).single
  · intro before input _ _ htold
    have hordered := ordered before
    cases input with
    | start =>
      by_contra hstops
      refine htold ?_
      show (Session.start _).2 = []
      unfold Session.start
      rw [if_neg fun hidle => hstops (hordered.idle.mp hidle)]
    | stop closing => exact absurd rfl htold
    | resume i =>
      by_contra hstops
      refine htold ?_
      show (Session.resume _ i).2 = []
      unfold Session.resume
      split
      case h_2 => rfl
      case h_1 epoch hat =>
        refine congrArg Prod.snd (if_pos fun hepoch => hstops ?_)
        exact hordered.woken _ (List.mem_of_getElem? hat) rfl hepoch.symm
    | finish i => exact absurd rfl htold
    | round i round => exact absurd rfl htold
    | unwind i => exact absurd rfl htold

/-- A restart: a `stop` waits for a supervisor slow to end, and a `start` for it. -/
def restart : List Input :=
  [.start, .round 0 .failed, .stop true, .start, .finish 0, .unwind 0, .finish 0, .resume 0]

/-- A restart ends with a new supervisor. -/
theorem restart_supervised :
    (machine.after {} restart).alive = [{ id := 1 }] ∧ LastWins restart :=
  ⟨by decide, lastWins_of_endures restart (by decide)⟩

/-- A supervisor that goes on failing counts its failures. -/
theorem after_failures (n : ℕ) (h : n ≤ 1024) :
    machine.after {} (.start :: List.replicate n (.round 0 .failed)) =
      { supervisor := some 0, alive := [{ id := 0, attempt := n }], created := 1 } := by
  induction n with
  | zero => rfl
  | succ n ih =>
    have hlast : Input.start :: List.replicate (n + 1) (.round 0 .failed) =
        (.start :: List.replicate n (.round 0 .failed)) ++ [.round 0 .failed] := by
      rw [List.replicate_succ', List.cons_append]
    rw [hlast, Machine.after_append, ih (by omega)]
    have hgoes : supervise n .failed = some (n + 1) := by
      refine if_neg ?_
      rw [backOffRaises_iff]
      omega
    rw [Machine.after_cons, Machine.after_nil]
    show Session.superviseRound { supervisor := some 0, alive := [{ id := 0, attempt := n }], created := 1 }
      0 .failed = _
    simp [Session.superviseRound, hgoes]

/-- A session that was started and never stopped is not supervised any more once its bring-ups have
failed 1025 times in a row. -/
theorem unsupervised_after_failures :
    ¬ LastWins (.start :: List.replicate 1025 (.round 0 .failed)) := by
  have hend : machine.after {} (.start :: List.replicate 1025 (.round 0 .failed)) =
      { supervisor := some 0, alive := [], created := 1 } := by
    have hlast : Input.start :: List.replicate 1025 (.round 0 .failed) =
        (.start :: List.replicate 1024 (.round 0 .failed)) ++ [.round 0 .failed] := by
      rw [List.replicate_succ', List.cons_append]
    rw [hlast, Machine.after_append, after_failures 1024 (Nat.le_refl _)]
    rfl
  have hcall : lastCall (.start :: List.replicate 1025 (.round 0 .failed)) = some .start := by
    have hnone : (List.replicate 1025 (Input.round 0 .failed)).filterMap Input.call? = [] :=
      List.filterMap_replicate_of_none rfl
    unfold lastCall
    show (Call.start :: (List.replicate 1025 (Input.round 0 .failed)).filterMap Input.call?).getLast? = _
    rw [hnone]
    rfl
  intro h
  have hsettles := h.settles _ [] (List.append_nil _).symm
  rw [hend] at hsettles
  have hsupervised := (hsettles rfl rfl).mpr hcall
  cases hsupervised

end Supervision

end NautilusCtrader
