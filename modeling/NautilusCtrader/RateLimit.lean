import NautilusCtrader.Common.Dict
import NautilusCtrader.Common.Machine
import Mathlib.Algebra.Order.Field.Rat
import Mathlib.Data.NNRat.Defs
import Mathlib.Data.PNat.Basic
import Mathlib.Data.List.Infix
import Mathlib.Data.List.Sort
import Mathlib.Tactic.Linarith

/-!
# Outbound rate limiting

`RequestScheduler` grants requests their turn to be sent: each group within a sliding window, and
none while a refusal of the venue has paused it. `machine` is the scheduler over everything that can
reach it between two suspensions. Every clock reading comes some time after the one before, so the
clock never goes back; a sleep may end at any time, as nothing below relies on its length.
-/

namespace NautilusCtrader

open Common

namespace RateLimit

/-- `RequestPriority`; lower values leave the queue first. -/
inductive RequestPriority
  | execution | checkpoint | data | backfill
deriving DecidableEq, Repr

def RequestPriority.value : RequestPriority → ℕ
  | .execution => 0
  | .checkpoint => 1
  | .data => 2
  | .backfill => 3

/-- The pacing group of a request. -/
inductive GroupName
  | historical | other
deriving DecidableEq, Repr

/-- `Pacing`, with what `__post_init__` checks. -/
structure Pacing where
  requestsPerWindow : ℕ+
  historicalRequestsPerWindow : ℕ+
  windowSecs : ℚ
  retries : ℕ
  queueTimeoutSecs : ℚ
  maxPauseSecs : ℚ
  windowSecs_pos : 0 < windowSecs
  queueTimeoutSecs_pos : 0 < queueTimeoutSecs
  maxPauseSecs_pos : 0 < maxPauseSecs

namespace Pacing

/-- The most requests of a group granted within a window. -/
def limit (pacing : Pacing) : GroupName → ℕ
  | .historical => pacing.historicalRequestsPerWindow
  | .other => pacing.requestsPerWindow

/-- How often a refused request of a group is sent again. -/
def retriesOf (pacing : Pacing) : GroupName → ℕ
  | .historical => pacing.retries
  | .other => 0

/-- Every group may send. -/
theorem limit_pos (pacing : Pacing) (group : GroupName) : 0 < pacing.limit group := by
  cases group with
  | historical => exact pacing.historicalRequestsPerWindow.pos
  | other => exact pacing.requestsPerWindow.pos

end Pacing

/-- `RATE_LIMIT_PAUSE_MARGIN_SECS`. -/
def pauseMarginSecs : ℚ := 1 / 4

/-! ## The state -/

/-- The future of an entry of the queue. -/
inductive Future
  | pending | granted
  | failed (message : String)
deriving DecidableEq, Repr

/-- Where a call of `submit` is suspended: in the queue, or in `send()`. -/
inductive Stage
  | waiting (queuedAt : ℚ) (future : Future)
  | sending
deriving DecidableEq, Repr

/-- A call of `submit` under way. -/
structure Submit where
  group : GroupName
  priority : RequestPriority
  waited : ℚ := 0
  attempt : ℕ := 0
  stage : Stage
deriving DecidableEq, Repr

/-- An entry of the heap; a call has one at most, so its sequence number names it. -/
abbrev Entry := ℕ × ℕ

/-- `_Group`. `heap` is sorted: the head is the least entry. -/
structure Group where
  heap : List Entry := []
  granted : List ℚ := []
  pausedUntil : WithBot ℚ := ⊥
  /-- A dispatcher task is there, neither done nor cancelled. -/
  dispatching : Bool := false

namespace Group

/-- `heappush`. -/
def push (g : Group) (entry : Entry) : Group :=
  { g with
    heap := g.heap.orderedInsert (fun a b => a.1 < b.1 ∨ a.1 = b.1 ∧ a.2 ≤ b.2) entry
    dispatching := true }

def stopDispatcher (g : Group) : Group := { g with dispatching := false }

end Group

/-- `RequestScheduler`, with the calls of `submit` under way by sequence number. -/
structure Scheduler where
  pacing : Pacing
  clock : ℚ
  sequence : ℕ := 0
  failed : Option String := none
  groups : GroupName → Group := fun _ => {}
  submits : Dict ℕ Submit := Dict.empty

/-- Why a call ends without a result of `send()`. -/
inductive Raised
  | queueTimeout
  | connectionLost (message : String)
  | refused
deriving DecidableEq, Repr

namespace Scheduler

variable (s : Scheduler)

/-- A clock reading, `elapsed` after the one before. -/
def read (elapsed : ℚ≥0) : Scheduler := { s with clock := s.clock + elapsed }

def setGroup (name : GroupName) (g : Group) : Scheduler :=
  { s with groups := Function.update s.groups name g }

/-- The call is over. -/
def drop (sequence : ℕ) : Scheduler := { s with submits := s.submits.erase sequence }

/-- Whether the future of an entry is pending; an entry whose future is done is dead. -/
def isPending (sequence : ℕ) : Bool :=
  match s.submits.get? sequence with
  | some ⟨_, _, _, _, .waiting _ .pending⟩ => true
  | _ => false

/-- The future of a pending entry is done. -/
def settle (sequence : ℕ) (future : Future) : Scheduler :=
  match s.submits.get? sequence with
  | some ⟨group, priority, waited, attempt, .waiting queuedAt .pending⟩ =>
    { s with
      submits :=
        s.submits.set sequence ⟨group, priority, waited, attempt, .waiting queuedAt future⟩ }
  | _ => s

/-- `_wait_turn` as far as its wait. -/
def waitTurn (sequence : ℕ) (submit : Submit) (elapsed : ℚ≥0) : Scheduler × Option Raised :=
  match s.failed with
  | some message => (s.drop sequence, some (.connectionLost message))
  | none =>
    if s.pacing.queueTimeoutSecs - submit.waited ≤ 0 then (s.drop sequence, some .queueTimeout)
    else
      let s := s.read elapsed
      let s := s.setGroup submit.group
        ((s.groups submit.group).push (submit.priority.value, sequence))
      ({ s with
          submits := s.submits.set sequence { submit with stage := .waiting s.clock .pending } },
        none)

/-- `submit` as far as its wait for its turn. -/
def submit (group : GroupName) (priority : RequestPriority) (elapsed : ℚ≥0) :
    Scheduler × Option Raised :=
  ({ s with sequence := s.sequence + 1 } : Scheduler).waitTurn s.sequence
    { group := group, priority := priority, stage := .sending } elapsed

/-- The rest of `_wait_turn`, once its future is done or its timer fires: the call goes on with
`send()`, or it raises. -/
def wake (sequence : ℕ) (elapsed : ℚ≥0) : Scheduler × Option Raised :=
  match s.submits.get? sequence with
  | some ⟨group, priority, waited, attempt, .waiting queuedAt .granted⟩ =>
    let s := s.read elapsed
    ({ s with
        submits := s.submits.set sequence
          ⟨group, priority, waited + (s.clock - queuedAt), attempt, .sending⟩ }, none)
  | some ⟨_, _, _, _, .waiting _ .pending⟩ => (s.drop sequence, some .queueTimeout)
  | some ⟨_, _, _, _, .waiting _ (.failed message)⟩ =>
    (s.drop sequence, some (.connectionLost message))
  | _ => (s, none)

/-- The group is paused for `secs` from now, unless it already is for longer. -/
def pause (name : GroupName) (secs : ℚ) : Scheduler :=
  s.setGroup name
    { s.groups name with
      pausedUntil := max (s.groups name).pausedUntil ((s.clock + secs : ℚ) : WithBot ℚ) }

/-- `send()` raises a refusal for the venue's rate limit. -/
def refused (sequence : ℕ) (retryAfterSecs : ℚ) (elapsed requeued : ℚ≥0) :
    Scheduler × Option Raised :=
  match s.submits.get? sequence with
  | some ⟨group, priority, waited, attempt, .sending⟩ =>
    let s := (s.read elapsed).pause group
      (min (retryAfterSecs + pauseMarginSecs) s.pacing.maxPauseSecs)
    if attempt + 1 ≤ s.pacing.retriesOf group then
      s.waitTurn sequence ⟨group, priority, waited, attempt + 1, .sending⟩ requeued
    else (s.drop sequence, some .refused)
  | _ => (s, none)

/-- `fail_all`: the pending entries of a heap fail. -/
def failEntries (message : String) : Scheduler → List Entry → Scheduler
  | s, [] => s
  | s, (_, sequence) :: rest => failEntries message (s.settle sequence (.failed message)) rest

/-- `fail_all` for one group. -/
def failGroup (message : String) (s : Scheduler) (name : GroupName) : Scheduler :=
  let s := s.setGroup name (s.groups name).stopDispatcher
  let s := failEntries message s (s.groups name).heap
  s.setGroup name { s.groups name with heap := [] }

/-- `fail_all`. -/
def failAll (message : String) : Scheduler :=
  failGroup message (failGroup message { s with failed := some message } .historical) .other

/-- `reset`: send times, pauses and the failure are forgotten; waiting requests stay. -/
def reset : Scheduler :=
  { s with
    failed := none
    groups := fun name =>
      { heap := (s.groups name).heap
        granted := []
        pausedUntil := ⊥
        dispatching := !(s.groups name).heap.isEmpty } }

/-- `ready_at`: the end of the pause, and of the window of the first of `granted` if that is full. -/
def readyAt (pacing : Pacing) (name : GroupName) (pausedUntil : WithBot ℚ) :
    List ℚ → WithBot ℚ
  | [] => pausedUntil
  | first :: rest =>
    if pacing.limit name ≤ rest.length + 1 then
      max pausedUntil ((first + pacing.windowSecs : ℚ) : WithBot ℚ)
    else pausedUntil

/-- One turn of the loop of `_dispatch`, with the time of its grant if it grants. -/
def dispatch (name : GroupName) (elapsed : ℚ≥0) : Scheduler × Option ℚ :=
  let g := s.groups name
  if !g.dispatching then (s, none)
  else
    match g.heap.dropWhile fun entry => !s.isPending entry.2 with
    | [] => (s.setGroup name { g with heap := [], dispatching := false }, none)
    | entry :: rest =>
      let s := s.read elapsed
      let now := s.clock
      let granted := g.granted.dropWhile fun t => t + s.pacing.windowSecs ≤ now
      if (now : WithBot ℚ) < readyAt s.pacing name g.pausedUntil granted then
        (s.setGroup name { g with heap := entry :: rest, granted := granted }, none)
      else
        ((s.setGroup name { g with heap := rest, granted := granted ++ [now] }).settle entry.2
            .granted, some now)

end Scheduler

/-! ## Runs -/

/-- Everything that can reach the scheduler between two suspensions. -/
inductive Action
  | submit (group : GroupName) (priority : RequestPriority) (elapsed : ℚ≥0)
  | wake (sequence : ℕ) (elapsed : ℚ≥0)
  | refused (sequence : ℕ) (retryAfterSecs : ℚ) (elapsed requeued : ℚ≥0)
  /-- The call is cancelled, or its `send()` returns or raises anything but such a refusal. -/
  | finish (sequence : ℕ)
  | dispatch (group : GroupName) (elapsed : ℚ≥0)
  | failAll (message : String)
  | reset

/-- What a run leaves to see: the grants, and when the scheduler failed or was reset. -/
inductive Record
  | granted (group : GroupName) (time : ℚ)
  | failedAll
  | reset
deriving DecidableEq, Repr

/-- The scheduler as a machine. -/
def machine : Machine Scheduler Action Record where
  step s
    | .submit group priority elapsed => ((s.submit group priority elapsed).1, [])
    | .wake sequence elapsed => ((s.wake sequence elapsed).1, [])
    | .refused sequence retryAfterSecs elapsed requeued =>
      ((s.refused sequence retryAfterSecs elapsed requeued).1, [])
    | .finish sequence => (s.drop sequence, [])
    | .dispatch group elapsed =>
      let done := s.dispatch group elapsed
      (done.1, (done.2.map (Record.granted group)).toList)
    | .failAll message => (s.failAll message, [.failedAll])
    | .reset => (s.reset, [.reset])

/-- The times of the grants of a group. -/
def grants (group : GroupName) (records : List Record) : List ℚ :=
  records.filterMap fun
    | .granted name time => if name = group then some time else none
    | _ => none

/-- The scheduler when it is made. -/
def new (pacing : Pacing) (clock : ℚ) : Scheduler where
  pacing := pacing
  clock := clock

/-! ## A failure -/

@[simp] theorem Scheduler.setGroup_groups_self (s : Scheduler) (name : GroupName) (g : Group) :
    (s.setGroup name g).groups name = g := by
  simp [Scheduler.setGroup]

/-- The other groups are as they were. -/
theorem Scheduler.setGroup_groups_of_ne (s : Scheduler) {name name' : GroupName} (g : Group)
    (h : name' ≠ name) : (s.setGroup name g).groups name' = s.groups name' := by
  simp [Scheduler.setGroup, h]

/-- A future that is done changes only the calls under way. -/
theorem settle_eq (s : Scheduler) (sequence : ℕ) (future : Future) :
    ∃ submits, s.settle sequence future = { s with submits := submits } := by
  unfold Scheduler.settle
  split
  · exact ⟨_, rfl⟩
  · exact ⟨s.submits, rfl⟩

/-- Failing entries touches their calls only. -/
theorem failEntries_eq (message : String) (s : Scheduler) (entries : List Entry) :
    ∃ submits, Scheduler.failEntries message s entries = { s with submits := submits } := by
  induction entries generalizing s with
  | nil => exact ⟨s.submits, rfl⟩
  | cons entry rest ih =>
    obtain ⟨settled, hsettle⟩ := settle_eq s entry.2 (.failed message)
    obtain ⟨submits, hrest⟩ := ih (s.settle entry.2 (.failed message))
    refine ⟨submits, ?_⟩
    show Scheduler.failEntries message (s.settle entry.2 (.failed message)) rest = _
    rw [hrest, hsettle]

/-- Failing a group touches its own queue and its calls. -/
theorem failGroup_eq (message : String) (s : Scheduler) (name : GroupName) :
    ∃ submits, Scheduler.failGroup message s name = { s with
      submits := submits
      groups := Function.update s.groups name
        { s.groups name with heap := [], dispatching := false } } := by
  unfold Scheduler.failGroup
  obtain ⟨submits, hfail⟩ := failEntries_eq message
    (s.setGroup name (s.groups name).stopDispatcher)
    ((s.setGroup name (s.groups name).stopDispatcher).groups name).heap
  refine ⟨submits, ?_⟩
  dsimp only
  rw [hfail]
  simp [Scheduler.setGroup, Group.stopDispatcher]

/-- `fail_all` stops every dispatcher and empties every heap; what was granted stays. -/
theorem failAll_eq (message : String) (s : Scheduler) :
    ∃ submits, s.failAll message = { s with
      failed := some message
      submits := submits
      groups := fun name => { s.groups name with heap := [], dispatching := false } } := by
  obtain ⟨first, hfirst⟩ := failGroup_eq message { s with failed := some message } .historical
  obtain ⟨submits, hsecond⟩ := failGroup_eq message
    (Scheduler.failGroup message { s with failed := some message } .historical) .other
  refine ⟨submits, ?_⟩
  unfold Scheduler.failAll
  rw [hsecond, hfirst]
  congr 1
  funext name
  cases name <;> simp

/-! ## What a step keeps

The grants still within a window of the clock are all in the deque, since only those that have left
it are dropped. So the deque is full whenever a window is.
-/

/-- The times that a window ending after `clock` can still hold. -/
def alive (windowSecs clock : ℚ) (times : List ℚ) : List ℚ :=
  times.filter fun t => clock < t + windowSecs

/-- A step that grants nothing and resets nothing. -/
structure Keeps (s s' : Scheduler) : Prop where
  pacing : s'.pacing = s.pacing
  clock : s.clock ≤ s'.clock
  granted : ∀ name, alive s.pacing.windowSecs s'.clock (s'.groups name).granted =
    alive s.pacing.windowSecs s'.clock (s.groups name).granted
  failed : s'.failed = s.failed
  dispatching : s.failed.isSome → ∀ name, (s'.groups name).dispatching = true →
    (s.groups name).dispatching = true

/-- Times that have expired at a later clock may expire earlier. -/
theorem alive_alive (windowSecs : ℚ) {clock later : ℚ} (h : clock ≤ later) (times : List ℚ) :
    alive windowSecs later (alive windowSecs clock times) = alive windowSecs later times := by
  unfold alive
  rw [List.filter_filter]
  refine List.filter_congr fun t _ => ?_
  by_cases hlater : later < t + windowSecs
  · simp [hlater, lt_of_le_of_lt h hlater]
  · simp [hlater]

namespace Keeps

variable {s s' s'' : Scheduler}

/-- What is left alone keeps its grants. -/
theorem refl (s : Scheduler) : Keeps s s := ⟨rfl, le_rfl, fun _ => rfl, rfl, fun _ _ h => h⟩

/-- What keeps the grants twice keeps them. -/
theorem trans (h : Keeps s s') (h' : Keeps s' s'') : Keeps s s'' where
  pacing := h'.pacing.trans h.pacing
  clock := h.clock.trans h'.clock
  granted name := by
    have hlater := h'.granted name
    rw [h.pacing] at hlater
    rw [hlater, ← alive_alive _ h'.clock (s'.groups name).granted, h.granted name,
      alive_alive _ h'.clock]
  failed := h'.failed.trans h.failed
  dispatching hfailed name hname :=
    h.dispatching hfailed name (h'.dispatching (by rwa [h.failed]) name hname)

/-- The clock is read. -/
theorem read (s : Scheduler) (elapsed : ℚ≥0) : Keeps s (s.read elapsed) :=
  ⟨rfl, by simp [Scheduler.read], fun _ => rfl, rfl, fun _ _ h => h⟩

/-- What only the calls under way distinguish is kept. -/
theorem of_submits (s : Scheduler) (sequence : ℕ) (submits : Dict ℕ Submit) :
    Keeps s { s with sequence := sequence, submits := submits } :=
  ⟨rfl, le_rfl, fun _ => rfl, rfl, fun _ _ h => h⟩

/-- A group replaced by one with the same grants, whose dispatcher starts only while nothing has
failed. -/
theorem setGroup (s : Scheduler) (name : GroupName) (g : Group)
    (hgranted : alive s.pacing.windowSecs s.clock g.granted =
      alive s.pacing.windowSecs s.clock (s.groups name).granted)
    (hdispatching : s.failed.isSome → g.dispatching = true → (s.groups name).dispatching = true) :
    Keeps s (s.setGroup name g) := by
  refine ⟨rfl, le_rfl, fun name' => ?_, rfl, fun hfailed name' hname => ?_⟩
  · by_cases h : name' = name
    · subst h
      rw [Scheduler.setGroup_groups_self]
      exact hgranted
    · rw [Scheduler.setGroup_groups_of_ne s g h]
  · by_cases h : name' = name
    · subst h
      rw [Scheduler.setGroup_groups_self] at hname
      exact hdispatching hfailed hname
    · rwa [Scheduler.setGroup_groups_of_ne s g h] at hname

/-- A call waits for its turn. -/
theorem waitTurn (s : Scheduler) (sequence : ℕ) (submit : Submit) (elapsed : ℚ≥0) :
    Keeps s (s.waitTurn sequence submit elapsed).1 := by
  unfold Scheduler.waitTurn
  split
  case h_1 => exact of_submits s s.sequence _
  case h_2 hfailed =>
    split
    · exact of_submits s s.sequence _
    · have hpush : Keeps (s.read elapsed) ((s.read elapsed).setGroup submit.group
          (((s.read elapsed).groups submit.group).push (submit.priority.value, sequence))) := by
        refine setGroup _ _ _ rfl fun hsome => ?_
        have hnone : (s.read elapsed).failed = none := hfailed
        rw [hnone] at hsome
        cases hsome
      exact ((read s elapsed).trans hpush).trans (of_submits _ _ _)

/-- A call is submitted. -/
theorem submit (s : Scheduler) (group : GroupName) (priority : RequestPriority) (elapsed : ℚ≥0) :
    Keeps s (s.submit group priority elapsed).1 :=
  (of_submits s (s.sequence + 1) s.submits).trans (waitTurn _ _ _ _)

/-- A call wakes. -/
theorem wake (s : Scheduler) (sequence : ℕ) (elapsed : ℚ≥0) :
    Keeps s (s.wake sequence elapsed).1 := by
  unfold Scheduler.wake
  split
  · exact (read s elapsed).trans (of_submits _ _ _)
  · exact of_submits s s.sequence _
  · exact of_submits s s.sequence _
  · exact refl s

/-- A group is paused. -/
theorem pause (s : Scheduler) (name : GroupName) (secs : ℚ) : Keeps s (s.pause name secs) :=
  setGroup s name _ rfl fun _ h => h

/-- A call is refused for its rate, and is queued again or fails. -/
theorem refused (s : Scheduler) (sequence : ℕ) (retryAfterSecs : ℚ) (elapsed requeued : ℚ≥0) :
    Keeps s (s.refused sequence retryAfterSecs elapsed requeued).1 := by
  unfold Scheduler.refused
  split
  case h_2 => exact refl s
  case h_1 =>
    have hread := read s elapsed
    dsimp only
    split
    · exact (hread.trans (pause _ _ _)).trans (waitTurn _ _ _ _)
    · exact (hread.trans (pause _ _ _)).trans (of_submits _ _ _)

end Keeps

section Dispatch

variable {s : Scheduler} {name : GroupName}

/-- The deque drops only what is no longer alive. -/
theorem alive_dropWhile (windowSecs clock : ℚ) (times : List ℚ) :
    alive windowSecs clock (times.dropWhile fun t => t + windowSecs ≤ clock) =
      alive windowSecs clock times := by
  induction times with
  | nil => rfl
  | cons t rest ih =>
    rw [List.dropWhile_cons]
    split
    · rename_i hexpired
      have hexpired : t + windowSecs ≤ clock := by simpa using hexpired
      rw [ih]
      simp [alive, not_lt.mpr hexpired]
    · rfl

/-- A group that is ready is not paused, and its window is not full. -/
theorem of_readyAt {pausedUntil : WithBot ℚ} {now : ℚ} {times : List ℚ}
    (h : ¬ (now : WithBot ℚ) < Scheduler.readyAt s.pacing name pausedUntil
      (times.dropWhile fun t => t + s.pacing.windowSecs ≤ now)) :
    pausedUntil ≤ now ∧
      (times.dropWhile fun t => t + s.pacing.windowSecs ≤ now).length < s.pacing.limit name := by
  have hpos := s.pacing.limit_pos name
  cases hrest : times.dropWhile fun t => t + s.pacing.windowSecs ≤ now with
  | nil =>
    rw [hrest] at h
    exact ⟨not_lt.mp h, hpos⟩
  | cons first rest =>
    rw [hrest] at h
    -- The first time kept has not expired, so a full window is ready only after now.
    have hfirst : ¬ first + s.pacing.windowSecs ≤ now := by
      have := List.head_dropWhile_not (fun t => decide (t + s.pacing.windowSecs ≤ now))
        (l := times) (by simp [hrest])
      simpa [hrest] using this
    by_cases hfull : s.pacing.limit name ≤ rest.length + 1
    · rw [Scheduler.readyAt, if_pos hfull] at h
      have hle := not_lt.mp h
      have : first + s.pacing.windowSecs ≤ now := WithBot.coe_le_coe.mp ((le_max_right _ _).trans hle)
      exact absurd this hfirst
    · rw [Scheduler.readyAt, if_neg hfull] at h
      exact ⟨not_lt.mp h, not_le.mp hfull⟩

/-- What one turn of the dispatcher did: it left the grants alive as they were, or it granted a turn
now, with the group not paused and fewer grants alive than its limit. -/
theorem dispatch_cases (s : Scheduler) (name : GroupName) (elapsed : ℚ≥0) :
    (Keeps s (s.dispatch name elapsed).1 ∧ (s.dispatch name elapsed).2 = none) ∨
      ∃ granted rest sequence,
        (s.groups name).dispatching = true ∧
        (s.groups name).pausedUntil ≤ ((s.clock + elapsed : ℚ) : WithBot ℚ) ∧
        granted.length < s.pacing.limit name ∧
        alive s.pacing.windowSecs (s.clock + elapsed) granted =
          alive s.pacing.windowSecs (s.clock + elapsed) (s.groups name).granted ∧
        s.dispatch name elapsed =
          (((s.read elapsed).setGroup name
            { s.groups name with
              heap := rest
              granted := granted ++ [s.clock + (elapsed : ℚ)] }).settle sequence .granted,
            some (s.clock + elapsed)) := by
  unfold Scheduler.dispatch
  dsimp only
  split
  case isTrue => exact .inl ⟨Keeps.refl s, rfl⟩
  case isFalse hdispatching =>
    have hdispatching : (s.groups name).dispatching = true := by simpa using hdispatching
    split
    case h_1 =>
      refine .inl ⟨Keeps.setGroup s name _ rfl fun _ h => ?_, rfl⟩
      exact absurd h (by simp)
    case h_2 entry rest hheap =>
      split
      case isTrue =>
        refine .inl ⟨(Keeps.read s elapsed).trans (Keeps.setGroup _ name _ ?_ fun _ h => h), rfl⟩
        exact alive_dropWhile _ _ _
      case isFalse hready =>
        obtain ⟨hpaused, hlimit⟩ := of_readyAt (s := s.read elapsed) hready
        exact .inr ⟨_, rest, entry.2, hdispatching, hpaused, hlimit, alive_dropWhile _ _ _, rfl⟩

end Dispatch

/-! ## The window law -/

/-- No window holds more grants of a group than its limit. -/
def WithinWindows (pacing : Pacing) (records : List Record) : Prop :=
  ∀ name start, ((grants name records).filter fun t =>
    start ≤ t ∧ t < start + pacing.windowSecs).length ≤ pacing.limit name

/-- What holds of the scheduler and of everything seen so far. -/
structure Lawful (pacing : Pacing) (records : List Record) (s : Scheduler) : Prop where
  paced : s.pacing = pacing
  window : ∀ segment, segment <:+: records → .reset ∉ segment → WithinWindows pacing segment
  recent : ∀ segment, segment <:+ records → .reset ∉ segment → ∀ name,
    (alive pacing.windowSecs s.clock (grants name segment)).Sublist
      (alive pacing.windowSecs s.clock (s.groups name).granted)
  stopped : s.failed.isSome → ∀ name, (s.groups name).dispatching = false
  failing : ∀ segment, .failedAll :: segment <:+ records → .reset ∉ segment → s.failed.isSome
  silent : ∀ segment, .failedAll :: segment <:+: records → .reset ∉ segment →
    ∀ name time, .granted name time ∉ segment

variable {pacing : Pacing} {records : List Record} {s s' : Scheduler}

/-- The grants of a group one after the other. -/
theorem grants_append (name : GroupName) (records records' : List Record) :
    grants name (records ++ records') = grants name records ++ grants name records' :=
  List.filterMap_append

/-- Without grants no window is exceeded. -/
theorem withinWindows_nil (pacing : Pacing) : WithinWindows pacing [] := fun name _ =>
  Nat.zero_le (pacing.limit name)

/-- A step that grants nothing and resets nothing keeps everything. -/
theorem Lawful.keeps (h : Lawful pacing records s) (hkeeps : Keeps s s') :
    Lawful pacing records s' where
  paced := hkeeps.pacing.trans h.paced
  window := h.window
  recent segment hsegment hreset name := by
    have hrecent := (h.recent segment hsegment hreset name).filter
      fun t => s'.clock < t + pacing.windowSecs
    have hgranted := hkeeps.granted name
    rw [h.paced] at hgranted
    rw [hgranted]
    rw [← alive_alive _ hkeeps.clock (grants name segment),
      ← alive_alive _ hkeeps.clock (s.groups name).granted]
    exact hrecent
  stopped hfailed name := by
    have hfailed : s.failed.isSome := by rwa [← hkeeps.failed]
    have hstopped := h.stopped hfailed name
    cases hname : (s'.groups name).dispatching with
    | false => rfl
    | true => exact absurd (hkeeps.dispatching hfailed name hname) (by simp [hstopped])
  failing segment hsegment hreset := by
    rw [hkeeps.failed]
    exact h.failing segment hsegment hreset
  silent := h.silent

/-- A segment of what is seen after one more record. -/
theorem infix_concat_cases {segment : List Record} {record : Record}
    (h : segment <:+: records ++ [record]) :
    segment <:+: records ∨ ∃ earlier, segment = earlier ++ [record] ∧ earlier <:+ records := by
  rcases List.infix_concat_iff.mp h with hsuffix | hinfix
  · rcases List.suffix_concat_iff.mp hsuffix with rfl | hearlier
    · exact .inl (List.nil_infix)
    · exact .inr hearlier
  · exact .inl hinfix

/-- Forgetting everything is always lawful: a segment cannot reach over a reset. -/
theorem Lawful.reset (h : Lawful pacing records s) :
    Lawful pacing (records ++ [.reset]) s.reset where
  paced := h.paced
  window segment hsegment hreset := by
    rcases infix_concat_cases hsegment with hinfix | ⟨earlier, rfl, -⟩
    · exact h.window segment hinfix hreset
    · exact absurd (by simp) hreset
  recent segment hsegment hreset name := by
    rcases List.suffix_concat_iff.mp hsegment with rfl | ⟨earlier, rfl, -⟩
    · exact List.nil_sublist _
    · exact absurd (by simp) hreset
  stopped hfailed := by cases hfailed
  failing segment hsegment hreset := by
    rcases List.suffix_concat_iff.mp hsegment with hnil | ⟨earlier, heq, -⟩
    · cases hnil
    · cases earlier with
      | nil => cases heq
      | cons first earlier =>
        obtain ⟨-, rfl⟩ := List.cons.inj heq
        exact absurd (by simp) hreset
  silent segment hsegment hreset := by
    rcases infix_concat_cases hsegment with hinfix | ⟨earlier, heq, -⟩
    · exact h.silent segment hinfix hreset
    · cases earlier with
      | nil => cases heq
      | cons first earlier =>
        obtain ⟨-, rfl⟩ := List.cons.inj heq
        exact absurd (by simp) hreset

/-- A failure stops every dispatcher. -/
theorem Lawful.failAll (h : Lawful pacing records s) (message : String) :
    Lawful pacing (records ++ [.failedAll]) (s.failAll message) := by
  obtain ⟨submits, heq⟩ := failAll_eq message s
  have hgrants : ∀ name earlier, grants name (earlier ++ [.failedAll]) = grants name earlier := by
    intro name earlier
    rw [grants_append]
    simp [grants]
  rw [heq]
  refine ⟨h.paced, ?_, ?_, fun _ _ => rfl, fun _ _ _ => rfl, ?_⟩
  · intro segment hsegment hreset
    rcases infix_concat_cases hsegment with hinfix | ⟨earlier, rfl, hearlier⟩
    · exact h.window segment hinfix hreset
    · intro name start
      rw [hgrants]
      exact h.window earlier hearlier.isInfix (fun hmem => hreset (by simp [hmem])) name start
  · intro segment hsegment hreset name
    rcases List.suffix_concat_iff.mp hsegment with rfl | ⟨earlier, rfl, hearlier⟩
    · exact List.nil_sublist _
    · rw [hgrants]
      exact h.recent earlier hearlier (fun hmem => hreset (by simp [hmem])) name
  · intro segment hsegment hreset
    rcases infix_concat_cases hsegment with hinfix | ⟨earlier, hearlier, hsuffix⟩
    · exact h.silent segment hinfix hreset
    · cases earlier with
      | nil =>
        obtain ⟨-, rfl⟩ := List.cons.inj hearlier
        simp
      | cons first earlier =>
        obtain ⟨rfl, rfl⟩ := List.cons.inj hearlier
        intro name time hmem
        have hmem : Record.granted name time ∈ earlier := by simpa using hmem
        exact h.silent earlier hsuffix.isInfix (fun hreset' => hreset (by simp [hreset'])) name time hmem

/-- The times of a window that holds now are alive now. -/
theorem length_window_le {windowSecs start now : ℚ} (hnow : now < start + windowSecs)
    (times : List ℚ) :
    (times.filter fun t => start ≤ t ∧ t < start + windowSecs).length ≤
      (alive windowSecs now times).length := by
  refine (List.monotone_filter_right _ fun t ht => ?_).length_le
  have ht : start ≤ t ∧ t < start + windowSecs := by simpa using ht
  have hlt : now < t + windowSecs := by linarith [ht.1]
  simpa using hlt

/-- A grant is lawful: with fewer grants alive than the limit no window ending now is full. -/
theorem Lawful.grant (h : Lawful pacing records s) {name : GroupName} {now : ℚ} {granted : List ℚ}
    (hclock : s.clock ≤ now) (hdispatching : (s.groups name).dispatching = true)
    (hlimit : granted.length < pacing.limit name)
    (halive : alive pacing.windowSecs now granted =
      alive pacing.windowSecs now (s.groups name).granted)
    (rest : List Entry) (submits : Dict ℕ Submit) :
    Lawful pacing (records ++ [.granted name now])
      { s.setGroup name { s.groups name with heap := rest, granted := granted ++ [now] } with
        clock := now
        submits := submits } := by
  have hpos := pacing.windowSecs_pos
  have hnotFailed : s.failed = none := by
    cases hfailed : s.failed with
    | none => rfl
    | some message =>
      have hstopped := h.stopped (by rw [hfailed]; rfl) name
      rw [hdispatching] at hstopped
      cases hstopped
  have hsame : ∀ earlier, grants name (earlier ++ [.granted name now]) = grants name earlier ++ [now] := by
    intro earlier
    rw [grants_append]
    simp [grants]
  have hdifferent : ∀ earlier name', name' ≠ name →
      grants name' (earlier ++ [.granted name now]) = grants name' earlier := by
    intro earlier name' hne
    rw [grants_append]
    simp [grants, hne.symm]
  -- What a segment so far grants to this group and is still alive now is in the deque.
  have hrecent : ∀ earlier, earlier <:+ records → .reset ∉ earlier → ∀ name',
      (alive pacing.windowSecs now (grants name' earlier)).Sublist
        (alive pacing.windowSecs now (s.groups name').granted) := by
    intro earlier hearlier hreset name'
    rw [← alive_alive _ hclock (grants name' earlier), ← alive_alive _ hclock (s.groups name').granted]
    exact (h.recent earlier hearlier hreset name').filter _
  refine ⟨h.paced, ?_, ?_, ?_, ?_, ?_⟩
  · intro segment hsegment hreset
    rcases infix_concat_cases hsegment with hinfix | ⟨earlier, rfl, hearlier⟩
    · exact h.window segment hinfix hreset
    intro name' start
    have hreset' : .reset ∉ earlier := fun hmem => hreset (by simp [hmem])
    have hbefore := h.window earlier hearlier.isInfix hreset'
    by_cases hne : name' = name
    · subst hne
      rw [hsame, List.filter_append, List.length_append]
      by_cases hnow : start ≤ now ∧ now < start + pacing.windowSecs
      · have hin : ((grants name' earlier).filter fun t =>
            start ≤ t ∧ t < start + pacing.windowSecs).length ≤ granted.length :=
          calc _ ≤ (alive pacing.windowSecs now (grants name' earlier)).length :=
                length_window_le hnow.2 _
            _ ≤ (alive pacing.windowSecs now (s.groups name').granted).length :=
                (hrecent earlier hearlier hreset' name').length_le
            _ = (alive pacing.windowSecs now granted).length := by rw [halive]
            _ ≤ granted.length := List.length_filter_le _ _
        have hone : ([now].filter fun t => start ≤ t ∧ t < start + pacing.windowSecs).length ≤ 1 :=
          List.length_filter_le _ _
        omega
      · have hnone : [now].filter (fun t => start ≤ t ∧ t < start + pacing.windowSecs) = [] := by
          simpa using hnow
        rw [hnone]
        exact hbefore name' start
    · rw [hdifferent earlier name' hne]
      exact hbefore name' start
  · intro segment hsegment hreset name'
    rcases List.suffix_concat_iff.mp hsegment with rfl | ⟨earlier, rfl, hearlier⟩
    · exact List.nil_sublist _
    have hreset' : .reset ∉ earlier := fun hmem => hreset (by simp [hmem])
    show (alive _ now _).Sublist (alive _ now ((s.setGroup name _).groups name').granted)
    by_cases hne : name' = name
    · subst hne
      rw [hsame, Scheduler.setGroup_groups_self]
      show ((_ ++ [now]).filter _).Sublist ((granted ++ [now]).filter _)
      rw [List.filter_append, List.filter_append]
      refine List.Sublist.append ?_ (List.Sublist.refl _)
      have hsub := hrecent earlier hearlier hreset' name'
      rw [← halive] at hsub
      exact hsub
    · rw [hdifferent earlier name' hne, Scheduler.setGroup_groups_of_ne s _ hne]
      exact hrecent earlier hearlier hreset' name'
  · intro hfailed
    have hfailed : s.failed.isSome := hfailed
    rw [hnotFailed] at hfailed
    cases hfailed
  · intro segment hsegment hreset
    rcases List.suffix_concat_iff.mp hsegment with hnil | ⟨earlier, hearlier, hsuffix⟩
    · cases hnil
    · cases earlier with
      | nil => cases hearlier
      | cons first earlier =>
        obtain ⟨rfl, rfl⟩ := List.cons.inj hearlier
        exact h.failing earlier hsuffix fun hmem => hreset (by simp [hmem])
  · intro segment hsegment hreset
    rcases infix_concat_cases hsegment with hinfix | ⟨earlier, hearlier, hsuffix⟩
    · exact h.silent segment hinfix hreset
    · cases earlier with
      | nil => cases hearlier
      | cons first earlier =>
        obtain ⟨rfl, rfl⟩ := List.cons.inj hearlier
        have hfailed := h.failing earlier hsuffix fun hmem => hreset (by simp [hmem])
        rw [hnotFailed] at hfailed
        cases hfailed

/-- A new scheduler keeps the law. -/
theorem lawful_new (pacing : Pacing) (clock : ℚ) : Lawful pacing [] (new pacing clock) where
  paced := rfl
  window segment hsegment _ := by
    rw [List.infix_nil.mp hsegment]
    exact withinWindows_nil pacing
  recent segment hsegment _ name := by
    rw [List.suffix_nil.mp hsegment]
    exact List.nil_sublist _
  stopped hfailed := by cases hfailed
  failing segment hsegment := by cases List.suffix_nil.mp hsegment
  silent segment hsegment := by cases List.infix_nil.mp hsegment

/-- Every step keeps the law. -/
theorem lawful_step (h : Lawful pacing records s) (action : Action) :
    Lawful pacing (records ++ (machine.step s action).2) (machine.step s action).1 := by
  cases action with
  | submit group priority elapsed =>
    simpa [machine] using h.keeps (Keeps.submit s group priority elapsed)
  | wake sequence elapsed => simpa [machine] using h.keeps (Keeps.wake s sequence elapsed)
  | refused sequence retryAfterSecs elapsed requeued =>
    simpa [machine] using h.keeps (Keeps.refused s sequence retryAfterSecs elapsed requeued)
  | finish sequence =>
    have hkeeps : Keeps s (s.drop sequence) := Keeps.of_submits s s.sequence _
    simpa [machine] using h.keeps hkeeps
  | failAll message => exact h.failAll message
  | reset => exact h.reset
  | dispatch name elapsed =>
    rcases dispatch_cases s name elapsed with
      ⟨hkeeps, hnone⟩ | ⟨granted, rest, sequence, hdispatching, -, hlimit, halive, heq⟩
    · simpa [machine, hnone] using h.keeps hkeeps
    · have hclock : s.clock ≤ s.clock + (elapsed : ℚ) := by simp
      rw [h.paced] at hlimit halive
      obtain ⟨submits, hsettle⟩ := settle_eq ((s.read elapsed).setGroup name
        { s.groups name with heap := rest, granted := granted ++ [s.clock + (elapsed : ℚ)] })
        sequence .granted
      show Lawful pacing (records ++ ((s.dispatch name elapsed).2.map _).toList)
        (s.dispatch name elapsed).1
      rw [heq, hsettle]
      exact h.grant hclock hdispatching hlimit halive rest submits

/-- A grant comes no earlier than the end of its group's pause. -/
theorem pausedUntil_le_of_granted {action : Action} {name : GroupName} {time : ℚ}
    (h : .granted name time ∈ (machine.step s action).2) :
    (s.groups name).pausedUntil ≤ (time : ℚ) := by
  cases action with
  | dispatch dispatched elapsed =>
    have h : .granted name time ∈ ((s.dispatch dispatched elapsed).2.map
      (Record.granted dispatched)).toList := h
    rcases dispatch_cases s dispatched elapsed with
      ⟨-, hnone⟩ | ⟨granted, rest, sequence, -, hpaused, -, -, heq⟩
    · simp [hnone] at h
    · rw [heq] at h
      obtain ⟨rfl, rfl⟩ : name = dispatched ∧ time = s.clock + elapsed := by simpa using h
      exact hpaused
  | submit group priority elapsed => simp [machine] at h
  | wake sequence elapsed => simp [machine] at h
  | refused sequence retryAfterSecs elapsed requeued => simp [machine] at h
  | finish sequence => simp [machine] at h
  | failAll message => simp [machine] at h
  | reset => simp [machine] at h

/-- Between two resets no window holds more grants of a group than its limit, no grant of a group
falls before the end of its pause, and none comes between a failure and the reset after it. -/
theorem grants_lawful (pacing : Pacing) (clock : ℚ) (actions : List Action) :
    (∀ segment, segment <:+: machine.told (new pacing clock) actions → .reset ∉ segment →
      ∀ name start, ((grants name segment).filter fun t =>
        start ≤ t ∧ t < start + pacing.windowSecs).length ≤ pacing.limit name) ∧
    (∀ before action rest, actions = before ++ action :: rest →
      ∀ name time,
        .granted name time ∈ (machine.step (machine.after (new pacing clock) before) action).2 →
          ((machine.after (new pacing clock) before).groups name).pausedUntil ≤ (time : ℚ)) ∧
    ∀ segment, .failedAll :: segment <:+: machine.told (new pacing clock) actions →
      .reset ∉ segment → ∀ name time, .granted name time ∉ segment := by
  have hlawful := Machine.told_invariant (I := Lawful pacing)
    (fun _ _ action h => lawful_step h action) (lawful_new pacing clock) actions
  refine ⟨hlawful.window, ?_, hlawful.silent⟩
  intro before action rest _ name time hgranted
  exact pausedUntil_le_of_granted hgranted

/-- One request a second. -/
def onePerSecond : Pacing where
  requestsPerWindow := ⟨1, by decide⟩
  historicalRequestsPerWindow := ⟨1, by decide⟩
  windowSecs := 1
  retries := 1
  queueTimeoutSecs := 60
  maxPauseSecs := 10
  windowSecs_pos := by decide +kernel
  queueTimeoutSecs_pos := by decide +kernel
  maxPauseSecs_pos := by decide +kernel

/-- The second of two requests, though more urgent, waits for the window of the first to pass. -/
example :
    machine.told (new onePerSecond 0)
      [.submit .other .data 0, .dispatch .other 0, .submit .other .execution 0,
        .dispatch .other (1 / 2), .wake 0 0, .dispatch .other (1 / 2)] =
    [.granted .other 0, .granted .other 1] := by decide +kernel

/-! ## The calls under way

What a caller of `submit` can rely on: a call keeps its group, its attempts are the refusals it met,
and nothing but its own steps moves it between the queue and `send()`.
-/

/-- A call as its caller sees it. -/
structure Ticket where
  group : GroupName
  attempt : ℕ
  sending : Bool
deriving DecidableEq, Repr

namespace Scheduler

/-- The call of a sequence number, if it is under way. -/
def ticket (s : Scheduler) (sequence : ℕ) : Option Ticket :=
  (s.submits.get? sequence).map fun submit => ⟨submit.group, submit.attempt, submit.stage = .sending⟩

/-- The clock is not on a ticket. -/
@[simp] theorem ticket_read (s : Scheduler) (elapsed : ℚ≥0) : (s.read elapsed).ticket = s.ticket := rfl

/-- Nor are the groups. -/
@[simp] theorem ticket_setGroup (s : Scheduler) (name : GroupName) (g : Group) :
    (s.setGroup name g).ticket = s.ticket := rfl

/-- Nor is a pause. -/
@[simp] theorem ticket_pause (s : Scheduler) (name : GroupName) (secs : ℚ) :
    (s.pause name secs).ticket = s.ticket := rfl

/-- A reset leaves the calls. -/
@[simp] theorem ticket_reset (s : Scheduler) : s.reset.ticket = s.ticket := rfl

/-- Only the call that is dropped is gone. -/
theorem ticket_drop (s : Scheduler) (sequence call : ℕ) :
    (s.drop sequence).ticket call = if call = sequence then none else s.ticket call := by
  unfold ticket drop
  rw [Dict.get?_erase]
  split <;> rfl

/-- A call put under a sequence number. -/
theorem ticket_set (s : Scheduler) (sequence call : ℕ) (submit : Submit) :
    ({ s with submits := s.submits.set sequence submit } : Scheduler).ticket call =
      if call = sequence then some ⟨submit.group, submit.attempt, submit.stage = .sending⟩
      else s.ticket call := by
  unfold ticket
  rw [Dict.get?_set]
  by_cases hcall : call = sequence
  · rw [if_pos hcall, if_pos hcall.symm]
    rfl
  · rw [if_neg hcall, if_neg (Ne.symm hcall)]

/-- A call that is settled keeps its ticket. -/
@[simp] theorem ticket_settle (s : Scheduler) (sequence : ℕ) (future : Future) :
    (s.settle sequence future).ticket = s.ticket := by
  funext call
  unfold settle
  split
  · rename_i group priority waited attempt queuedAt hget
    rw [ticket_set]
    split
    · rename_i heq
      subst heq
      simp [ticket, hget]
    · rfl
  · rfl

/-- Calls that fail keep their tickets until they wake. -/
@[simp] theorem ticket_failEntries (message : String) (s : Scheduler) (entries : List Entry) :
    (failEntries message s entries).ticket = s.ticket := by
  induction entries generalizing s with
  | nil => rfl
  | cons entry rest ih => exact (ih _).trans (ticket_settle s _ _)

/-- So do those of a group. -/
@[simp] theorem ticket_failGroup (message : String) (s : Scheduler) (name : GroupName) :
    (failGroup message s name).ticket = s.ticket := by
  unfold failGroup
  rw [ticket_setGroup, ticket_failEntries, ticket_setGroup]

/-- So do all. -/
@[simp] theorem ticket_failAll (message : String) (s : Scheduler) :
    (s.failAll message).ticket = s.ticket := by
  unfold failAll
  simp only [ticket_failGroup]
  rfl

/-- A dispatch that grants turns leaves the tickets. -/
@[simp] theorem ticket_dispatch (s : Scheduler) (name : GroupName) (elapsed : ℚ≥0) :
    (s.dispatch name elapsed).1.ticket = s.ticket := by
  unfold dispatch
  dsimp only
  split
  · rfl
  split
  · rfl
  split
  · rfl
  · rw [ticket_settle]
    rfl

/-- A call that waits has its ticket, unless it is refused at once. -/
theorem ticket_waitTurn (s : Scheduler) (sequence : ℕ) (submit : Submit) (elapsed : ℚ≥0) (call : ℕ) :
    (s.waitTurn sequence submit elapsed).1.ticket call =
      if call = sequence then
        if (s.waitTurn sequence submit elapsed).2 = none then
          some ⟨submit.group, submit.attempt, false⟩
        else none
      else s.ticket call := by
  unfold waitTurn
  split
  · rw [ticket_drop]
    simp
  · split
    · rw [ticket_drop]
      simp
    · dsimp only
      rw [if_pos rfl]
      exact ticket_set ((s.read elapsed).setGroup submit.group
        (((s.read elapsed).groups submit.group).push (submit.priority.value, sequence))) sequence call
        { submit with stage := .waiting (s.read elapsed).clock .pending }

/-- A call that is submitted has its first ticket. -/
theorem ticket_submit (s : Scheduler) (group : GroupName) (priority : RequestPriority)
    (elapsed : ℚ≥0) (call : ℕ) :
    (s.submit group priority elapsed).1.ticket call =
      if call = s.sequence then
        if (s.submit group priority elapsed).2 = none then some ⟨group, 0, false⟩ else none
      else s.ticket call :=
  ticket_waitTurn _ _ _ _ _

/-- A call that wakes goes on with `send()`, or it is over. -/
theorem ticket_wake (s : Scheduler) {sequence : ℕ} {group : GroupName} {attempt : ℕ}
    (h : s.ticket sequence = some ⟨group, attempt, false⟩) (elapsed : ℚ≥0) (call : ℕ) :
    (s.wake sequence elapsed).1.ticket call =
      if call = sequence then
        if (s.wake sequence elapsed).2 = none then some ⟨group, attempt, true⟩ else none
      else s.ticket call := by
  unfold ticket at h
  obtain ⟨⟨group', priority, waited, attempt', stage⟩, hget, heq⟩ := Option.map_eq_some_iff.mp h
  cases stage with
  | sending => simp at heq
  | waiting queuedAt future =>
    obtain ⟨rfl, rfl⟩ : group' = group ∧ attempt' = attempt := by simpa using heq
    unfold wake
    rw [hget]
    cases future with
    | pending => simpa using ticket_drop s sequence call
    | failed message => simpa using ticket_drop s sequence call
    | granted =>
      dsimp only
      rw [if_pos rfl]
      exact ticket_set (s.read elapsed) sequence call _

/-- A refused call is queued again with one more attempt, or it is over. -/
theorem ticket_refused (s : Scheduler) {sequence : ℕ} {group : GroupName} {attempt : ℕ}
    (h : s.ticket sequence = some ⟨group, attempt, true⟩) (retryAfterSecs : ℚ)
    (elapsed requeued : ℚ≥0) (call : ℕ) :
    (s.refused sequence retryAfterSecs elapsed requeued).1.ticket call =
      if call = sequence then
        if (s.refused sequence retryAfterSecs elapsed requeued).2 = none then
          some ⟨group, attempt + 1, false⟩
        else none
      else s.ticket call := by
  unfold ticket at h
  obtain ⟨⟨group', priority, waited, attempt', stage⟩, hget, heq⟩ := Option.map_eq_some_iff.mp h
  cases stage with
  | waiting queuedAt future => simp at heq
  | sending =>
    obtain ⟨rfl, rfl⟩ : group' = group ∧ attempt' = attempt := by simpa using heq
    unfold refused
    rw [hget]
    dsimp only
    split
    · exact ticket_waitTurn _ _ _ _ _
    · rw [if_neg (Option.some_ne_none _), ticket_drop, ticket_pause, ticket_read]

/-- A call is queued again only while it has a retry left. -/
theorem attempt_refused (s : Scheduler) {sequence : ℕ} {group : GroupName} {attempt : ℕ}
    (h : s.ticket sequence = some ⟨group, attempt, true⟩) {retryAfterSecs : ℚ}
    {elapsed requeued : ℚ≥0}
    (hnone : (s.refused sequence retryAfterSecs elapsed requeued).2 = none) :
    attempt + 1 ≤ s.pacing.retriesOf group := by
  unfold ticket at h
  obtain ⟨⟨group', priority, waited, attempt', stage⟩, hget, heq⟩ := Option.map_eq_some_iff.mp h
  cases stage with
  | waiting queuedAt future => simp at heq
  | sending =>
    obtain ⟨rfl, rfl⟩ : group' = group ∧ attempt' = attempt := by simpa using heq
    unfold refused at hnone
    rw [hget] at hnone
    dsimp only at hnone
    split at hnone
    · assumption
    · cases hnone

/-- What no step after the first changes: the pacing, and the next sequence number. -/
def SameSetup (s s' : Scheduler) : Prop := s'.pacing = s.pacing ∧ s'.sequence = s.sequence

/-- Failing all calls leaves the setup. -/
theorem sameSetup_failAll (message : String) (s : Scheduler) : s.SameSetup (s.failAll message) := by
  obtain ⟨submits, heq⟩ := failAll_eq message s
  rw [heq]
  exact ⟨rfl, rfl⟩

/-- Settling a call leaves it. -/
theorem sameSetup_settle (s : Scheduler) (sequence : ℕ) (future : Future) :
    s.SameSetup (s.settle sequence future) := by
  obtain ⟨submits, heq⟩ := settle_eq s sequence future
  rw [heq]
  exact ⟨rfl, rfl⟩

/-- A dispatch leaves it. -/
theorem sameSetup_dispatch (s : Scheduler) (name : GroupName) (elapsed : ℚ≥0) :
    s.SameSetup (s.dispatch name elapsed).1 := by
  unfold dispatch
  dsimp only
  split
  · exact ⟨rfl, rfl⟩
  split
  · exact ⟨rfl, rfl⟩
  split
  · exact ⟨rfl, rfl⟩
  · exact sameSetup_settle _ _ _

/-- A call that waits leaves it. -/
theorem sameSetup_waitTurn (s : Scheduler) (sequence : ℕ) (submit : Submit) (elapsed : ℚ≥0) :
    s.SameSetup (s.waitTurn sequence submit elapsed).1 := by
  unfold waitTurn
  split
  · exact ⟨rfl, rfl⟩
  · split <;> exact ⟨rfl, rfl⟩

/-- A call that is submitted changes no pacing. -/
theorem pacing_submit (s : Scheduler) (group : GroupName) (priority : RequestPriority)
    (elapsed : ℚ≥0) : (s.submit group priority elapsed).1.pacing = s.pacing :=
  (sameSetup_waitTurn _ _ _ _).1

/-- It uses one number. -/
theorem sequence_submit (s : Scheduler) (group : GroupName) (priority : RequestPriority)
    (elapsed : ℚ≥0) : (s.submit group priority elapsed).1.sequence = s.sequence + 1 :=
  (sameSetup_waitTurn _ _ _ _).2

/-- A call that wakes leaves the setup. -/
theorem sameSetup_wake (s : Scheduler) (sequence : ℕ) (elapsed : ℚ≥0) :
    s.SameSetup (s.wake sequence elapsed).1 := by
  unfold wake
  split <;> exact ⟨rfl, rfl⟩

/-- A call that is refused leaves it. -/
theorem sameSetup_refused (s : Scheduler) (sequence : ℕ) (retryAfterSecs : ℚ)
    (elapsed requeued : ℚ≥0) :
    s.SameSetup (s.refused sequence retryAfterSecs elapsed requeued).1 := by
  unfold refused
  split
  · dsimp only
    split
    · exact sameSetup_waitTurn ((s.read elapsed).pause _ _) _ _ _
    · exact ⟨rfl, rfl⟩
  · exact ⟨rfl, rfl⟩

end Scheduler

end RateLimit

end NautilusCtrader
