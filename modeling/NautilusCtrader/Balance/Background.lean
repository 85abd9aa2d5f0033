import NautilusCtrader.Balance.Account
import NautilusCtrader.Balance.Checkpoint

/-!
# The keeper's order

`Ran` says what a task may do from one await to the next: it leaves the keeper as it is but for the
walks, or writes a value of a checkpoint no older than the last one written, and may then hand its walk
over to the background. From that, over any run: the checkpoints written never go back, one task of the
background is under way at most, and a stopped keeper writes nothing and has none.
-/

namespace NautilusCtrader

open Common

namespace BalanceHistory

/-! ## What a task does -/

/-- A task leaves the keeper as it is, but for the walk to the first deposit and its own place. -/
structure Quiet (id : ℕ) (b later : BalanceCheckpoint) : Prop where
  stopped : later.stopped = b.stopped
  writtenMs : later.writtenMs = b.writtenMs
  timer : later.timer = b.timer
  task : later.task = b.task
  begun : later.begun = b.begun
  tasks : ∀ other, other ≠ id → later.tasks.get? other = b.tasks.get? other

/-- A value of checkpoint `t` may be written. -/
structure Due (b : BalanceCheckpoint) (t : ℤ) (value : CheckpointValue) : Prop where
  stopped : b.stopped = false
  newer : ∀ written, b.writtenMs = some written → written ≤ t
  checkpointMs : value.checkpointMs = some t

/-- What the task `id` does from one await to the next. -/
inductive Ran (id : ℕ) (b : BalanceCheckpoint) : BalanceCheckpoint × List Record → Prop
  | quiet {later : BalanceCheckpoint} {told : List Record} (hquiet : Quiet id b later)
      (htold : ∀ record ∈ told, ∃ request, record = .asked id request) : Ran id b (later, told)
  | wrote {later : BalanceCheckpoint} {t : ℤ} {value : CheckpointValue} (hquiet : Quiet id b later)
      (hdue : Due b t value) : Ran id b ({ later with writtenMs := some t }, [.wrote value])
  | started {later : BalanceCheckpoint} {t : ℤ} {value : CheckpointValue} (settle : Settle)
      (hquiet : Quiet id b later) (hdue : Due b t value) :
      Ran id b (({ later with writtenMs := some t } : BalanceCheckpoint).startTask (some settle),
        [.wrote value, .started later.begun])

variable {b : BalanceCheckpoint} {id : ℕ} {settle : Settle} {moment : Moment}

/-- A task that does nothing leaves the keeper as it is. -/
theorem Quiet.refl (id : ℕ) (b : BalanceCheckpoint) : Quiet id b b :=
  ⟨rfl, rfl, rfl, rfl, rfl, fun _ _ => rfl⟩

/-- What is left as it is twice is left as it is. -/
theorem Quiet.trans {later last : BalanceCheckpoint} (h : Quiet id b later)
    (hlast : Quiet id later last) : Quiet id b last where
  stopped := hlast.stopped.trans h.stopped
  writtenMs := hlast.writtenMs.trans h.writtenMs
  timer := hlast.timer.trans h.timer
  task := hlast.task.trans h.task
  begun := hlast.begun.trans h.begun
  tasks other hother := (hlast.tasks other hother).trans (h.tasks other hother)

/-- What a task does may begin with something quiet. -/
theorem Ran.of_quiet {later : BalanceCheckpoint} {ran : BalanceCheckpoint × List Record}
    (h : Quiet id b later) (hran : Ran id later ran) : Ran id b ran := by
  have hdues {t : ℤ} {value : CheckpointValue} (hdue : Due later t value) : Due b t value :=
    ⟨h.stopped ▸ hdue.stopped, h.writtenMs ▸ hdue.newer, hdue.checkpointMs⟩
  cases hran with
  | quiet hquiet htold => exact .quiet (h.trans hquiet) htold
  | wrote hquiet hdue => exact .wrote (h.trans hquiet) (hdues hdue)
  | started settle hquiet hdue => exact .started settle (h.trans hquiet) (hdues hdue)

/-- A task ends. -/
theorem quiet_ended (id : ℕ) (b : BalanceCheckpoint) : Quiet id b (b.ended id) :=
  ⟨rfl, rfl, rfl, rfl, rfl, fun other hother => by
    show (b.tasks.erase id).get? other = _
    rw [Dict.get?_erase, if_neg hother]⟩

/-- A task goes on to its next await. -/
theorem quiet_awaits (id : ℕ) (b : BalanceCheckpoint) (settle : Settle) (stage : Stage) :
    Quiet id b (b.awaits id settle stage) :=
  ⟨rfl, rfl, rfl, rfl, rfl, fun _ hother => Dict.get?_set_of_ne _ _ (Ne.symm hother)⟩

/-- A task lets the lock of the deposit walk go. -/
theorem quiet_letGo (id : ℕ) (b : BalanceCheckpoint) : Quiet id b (b.letGo id) := by
  unfold BalanceCheckpoint.letGo
  split <;> exact ⟨rfl, rfl, rfl, rfl, rfl, fun _ _ => rfl⟩

/-- A task asks and waits. -/
theorem ran_awaits (id : ℕ) (b : BalanceCheckpoint) (settle : Settle) (stage : Stage)
    (request : Request) : Ran id b (b.awaits id settle stage, [.asked id request]) :=
  .quiet (quiet_awaits id b settle stage) (by simp)

/-- The first deposit does not move a value's checkpoint. -/
theorem checkpointMs_withDeposit (found : Option BalanceChange) (value : CheckpointValue)
    (registrationMs : Option ℤ) :
    (withDeposit found value registrationMs).checkpointMs = value.checkpointMs := by
  unfold withDeposit
  split
  · rfl
  split
  · rfl
  split <;> rfl

/-- A task hands its value over, which may be due. -/
theorem ran_close {value : CheckpointValue} (hvalue : value.checkpointMs = some settle.walk.tMs) :
    Ran id b (b.close moment id settle value) := by
  have hended := quiet_ended id b
  unfold BalanceCheckpoint.close
  dsimp only
  split
  · exact .quiet hended (by simp)
  rename_i hnewer
  split
  · exact .quiet hended (by simp)
  rename_i hgoes
  have hdue : Due b settle.walk.tMs
      (withDeposit (b.ended id).deposit value settle.registrationMs) := by
    refine ⟨?_, fun written hwritten => ?_, (checkpointMs_withDeposit _ _ _).trans hvalue⟩
    · have hgoes : (b.stopped || !moment.writes) ≠ true := hgoes
      cases hstopped : b.stopped with
      | false => rfl
      | true => exact absurd (by rw [hstopped]; rfl) hgoes
    · have hnewer : b.writtenMs.any (settle.walk.tMs < ·) ≠ true := hnewer
      rw [hwritten] at hnewer
      simpa using hnewer
  split
  · exact .wrote hended hdue
  split
  · exact .started _ hended hdue
  · exact .wrote hended hdue

/-- A walk fails: its reason is handed over. -/
theorem ran_fail (failure : Failure) : Ran id b (b.fail moment id settle failure) := by
  unfold BalanceCheckpoint.fail
  split
  · exact .quiet ((quiet_letGo id b).trans (quiet_ended id _)) (by simp)
  · exact .of_quiet (quiet_letGo id b) (ran_close rfl)

/-- A walk ends with what the newest trader makes of it. -/
theorem ran_finish (latest : ProtoOATrader) : Ran id b (b.finish moment id settle latest) := by
  unfold BalanceCheckpoint.finish
  split
  · exact ran_fail _
  · rename_i value hvalue
    exact ran_close (Walk.value_checkpointMs hvalue)

/-- The next window of the latest changes is read, or the walk ends. -/
theorem ran_topNext (latest : ProtoOATrader) (nowMs : ℤ) (windows : List History.Window) :
    Ran id b (b.topNext moment id settle latest nowMs windows) := by
  cases windows with
  | nil => exact ran_finish latest
  | cons window rest => exact ran_awaits _ _ _ _ _

/-- The latest changes are read once the way back is done. -/
theorem ran_topUp (latest : ProtoOATrader) : Ran id b (b.topUp moment id settle latest) := by
  unfold BalanceCheckpoint.topUp
  split
  · exact ran_topNext _ _ _
  · exact ran_finish latest

/-- A task leaves the deposit walk and goes on. -/
theorem ran_leaveDeposit : Ran id b (b.leaveDeposit id settle) :=
  .of_quiet (quiet_letGo id b) (ran_awaits _ _ _ _ _)

/-- The next window of the deposit walk is read, or the walk is left. -/
theorem ran_depositNext (left : ℕ) : Ran id b (b.depositNext moment id settle left) := by
  unfold BalanceCheckpoint.depositNext
  split
  · exact ran_leaveDeposit
  split
  · exact ran_leaveDeposit
  split
  · exact ran_awaits _ _ _ _ _
  · exact ran_leaveDeposit

/-- A change of the shared walk alone. -/
theorem quiet_deposit (id : ℕ) (b : BalanceCheckpoint) (deposit : Option BalanceChange)
    (fromMs : Option ℤ) (windows : ℕ) (caughtUp : Bool) (holder : Option ℕ) (waiting : List ℕ) :
    Quiet id b { b with
      deposit, depositFromMs := fromMs, depositWindows := windows, depositCaughtUp := caughtUp, holder,
      waiting } :=
  ⟨rfl, rfl, rfl, rfl, rfl, fun _ _ => rfl⟩

/-- The deposit walk is taken up with its lock. -/
theorem ran_walkDepositLocked : Ran id b (b.walkDepositLocked moment id settle) := by
  unfold BalanceCheckpoint.walkDepositLocked
  split
  · exact .of_quiet (quiet_deposit id b _ _ _ _ _ _) (ran_depositNext _)
  · exact ran_leaveDeposit

/-- A window of the deposit walk was read. -/
theorem ran_depositRead (endMs nowMs : ℤ) (left : ℕ) (operations : List ProtoOADepositWithdraw) :
    Ran id b (b.depositRead moment id settle endMs nowMs left operations) := by
  unfold BalanceCheckpoint.depositRead
  dsimp only
  split
  · exact .of_quiet (quiet_deposit id b _ _ _ _ _ _) ran_leaveDeposit
  split
  · split <;> exact .of_quiet (quiet_deposit id b _ _ _ _ _ _) ran_leaveDeposit
  split
  · split <;> exact .of_quiet (quiet_deposit id b _ _ _ _ _ _) ran_leaveDeposit
  · split
    · exact .of_quiet (quiet_deposit id b _ _ (b.depositWindows + 1) _ _ _) (ran_depositNext _)
    · exact .of_quiet (quiet_deposit id b _ _ b.depositWindows _ _ _) (ran_depositNext _)

/-- A task goes to the deposit walk, or waits for its lock. -/
theorem ran_walkDeposit : Ran id b (b.walkDeposit moment id settle) := by
  unfold BalanceCheckpoint.walkDeposit
  split
  · exact .of_quiet (quiet_deposit id b _ _ _ _ _ _) ran_walkDepositLocked
  · refine .quiet ((quiet_deposit id b _ _ _ _ _ _).trans (quiet_awaits id _ _ _)) (by simp)

/-- The next window back is read, or the walk goes on to the deposit. -/
theorem ran_walkBack : Ran id b (b.walkBack moment id settle) := by
  unfold BalanceCheckpoint.walkBack
  split
  · exact ran_awaits _ _ _ _ _
  · exact ran_walkDeposit

/-- A task begins to settle its checkpoint. -/
theorem ran_settles : Ran id b (b.settles moment id settle) := by
  unfold BalanceCheckpoint.settles
  split
  · exact ran_awaits _ _ _ _ _
  · exact ran_walkBack

/-- A task runs for the first time. -/
theorem ran_run (settings : Settings) (trader : Option ProtoOATrader) (bounded : Bool) :
    Ran id b (b.run settings moment id trader bounded) := by
  have hcleared := quiet_deposit id b b.deposit b.depositFromMs b.depositWindows false b.holder b.waiting
  unfold BalanceCheckpoint.run
  dsimp only
  split
  · exact .quiet (hcleared.trans (quiet_ended id _)) (by simp)
  split
  · exact .quiet (hcleared.trans (quiet_ended id _)) (by simp)
  · exact .of_quiet hcleared ran_settles

/-- A task goes on from its await with a reply. -/
theorem ran_resume (reply : Reply) : Ran id b (b.resume moment id settle reply) := by
  have hnothing : Ran id b (b, []) := .quiet (Quiet.refl id b) (by simp)
  unfold BalanceCheckpoint.resume
  split
  · exact ran_settles
  · split
    · exact ran_walkDepositLocked
    · exact hnothing
  · exact hnothing
  · exact hnothing
  · exact hnothing
  · exact ran_fail _
  · exact ran_walkBack
  · split
    · exact ran_awaits _ _ _ _ _
    · exact ran_walkBack
  · exact ran_walkBack
  · exact ran_depositRead _ _ _ _
  · exact ran_topUp _
  · split
    · exact ran_awaits _ _ _ _ _
    · exact ran_topNext _ _ _
  · exact ran_topNext _ _ _
  · exact hnothing

/-! ## The keeper in order -/

/-- The checkpoints of the values written, in order. -/
def checkpoints (told : List Record) : List ℤ :=
  told.filterMap fun
    | .wrote value => value.checkpointMs
    | _ => none

/-- A task is under way, and is not to end when it next runs. -/
def BalanceCheckpoint.UnderWay (b : BalanceCheckpoint) (id : ℕ) : Prop :=
  ∃ task, b.tasks.get? id = some task ∧ task.cancelled = false

/-- The keeper in order, after what it told. -/
structure Ordered (told : List Record) (b : BalanceCheckpoint) : Prop where
  fresh : ∀ id task, b.tasks.get? id = some task → id < b.begun
  begun : ∀ id, .started id ∈ told → id < b.begun
  alone : ∀ id, .started id ∈ told → b.UnderWay id → b.task = some id
  sorted : (checkpoints told).Pairwise (· ≤ ·)
  last : ∀ t ∈ checkpoints told, ∃ written, b.writtenMs = some written ∧ t ≤ written
  stopped : b.stopped = true → b.timer = none ∧ b.task = none

variable {told : List Record}

/-- A task that asks has written nothing. -/
theorem checkpoints_asked {more : List Record}
    (h : ∀ record ∈ more, ∃ request, record = .asked id request) : checkpoints more = [] := by
  refine List.filterMap_eq_nil_iff.mpr fun record hrecord => ?_
  obtain ⟨request, rfl⟩ := h record hrecord
  rfl

/-- Only the cancelled task is no longer under way. -/
theorem cancel_underWay {other : ℕ} (h : (b.cancel id).UnderWay other) :
    b.UnderWay other ∧ other ≠ id := by
  unfold BalanceCheckpoint.cancel at h
  split at h
  · rename_i hnone
    refine ⟨h, ?_⟩
    rintro rfl
    obtain ⟨task, htask, -⟩ := h
    rw [hnone] at htask
    cases htask
  · obtain ⟨task, htask, hgoes⟩ := h
    rcases Dict.get?_set_eq_some.mp htask with ⟨rfl, rfl⟩ | ⟨hne, hheld⟩
    · cases hgoes
    · exact ⟨⟨task, hheld, hgoes⟩, Ne.symm hne⟩

/-- A cancel makes no task. -/
theorem cancel_known {other : ℕ} {task : Task} (h : (b.cancel id).tasks.get? other = some task) :
    ∃ task, b.tasks.get? other = some task := by
  unfold BalanceCheckpoint.cancel at h
  split at h
  · exact ⟨task, h⟩
  · rename_i found hfound
    rcases Dict.get?_set_eq_some.mp h with ⟨rfl, -⟩ | ⟨-, hheld⟩
    · exact ⟨found, hfound⟩
    · exact ⟨task, hheld⟩

/-- What cancelling leaves as it is. -/
theorem cancel_frame (b : BalanceCheckpoint) (id : ℕ) :
    (b.cancel id).begun = b.begun ∧ (b.cancel id).writtenMs = b.writtenMs ∧
      (b.cancel id).stopped = b.stopped ∧ (b.cancel id).timer = b.timer ∧
      (b.cancel id).task = b.task := by
  unfold BalanceCheckpoint.cancel
  split <;> exact ⟨rfl, rfl, rfl, rfl, rfl⟩

/-- The background task is given up; nothing else of the keeper changes. -/
theorem cancelTask_frame (b : BalanceCheckpoint) :
    b.cancelTask.begun = b.begun ∧ b.cancelTask.writtenMs = b.writtenMs ∧
      b.cancelTask.stopped = b.stopped ∧ b.cancelTask.timer = b.timer ∧ b.cancelTask.task = none := by
  unfold BalanceCheckpoint.cancelTask
  split
  · rename_i hnone
    exact ⟨rfl, rfl, rfl, rfl, hnone⟩
  · rename_i id _
    obtain ⟨hbegun, hwritten, hstopped, htimer, -⟩ := cancel_frame b id
    exact ⟨hbegun, hwritten, hstopped, htimer, rfl⟩

namespace Ordered

/-- No task of the background is left under way. -/
theorem cancelTask_underWay (h : Ordered told b) (hstarted : .started id ∈ told) :
    ¬ b.cancelTask.UnderWay id := by
  intro hway
  unfold BalanceCheckpoint.cancelTask at hway
  split at hway
  · rename_i hnone
    exact Option.some_ne_none _ ((h.alone id hstarted hway).symm.trans hnone)
  · rename_i running hrunning
    obtain ⟨hold, hne⟩ := cancel_underWay hway
    exact hne (Option.some.inj ((h.alone id hstarted hold).symm.trans hrunning))

/-- The keeper stays in order when a task is cancelled. -/
theorem cancel (h : Ordered told b) (id : ℕ) : Ordered told (b.cancel id) := by
  obtain ⟨hbegun, hwritten, hstopped, htimer, htask⟩ := cancel_frame b id
  refine ⟨fun other task hother => ?_, hbegun ▸ h.begun, fun other hother hway => ?_, h.sorted,
    hwritten ▸ h.last, ?_⟩
  · obtain ⟨found, hfound⟩ := cancel_known hother
    exact hbegun ▸ h.fresh other found hfound
  · rw [htask]
    exact h.alone other hother (cancel_underWay hway).1
  · rw [hstopped, htimer, htask]
    exact h.stopped

/-- It stays in order when the background task is. -/
theorem cancelTask (h : Ordered told b) : Ordered told b.cancelTask := by
  obtain ⟨hbegun, hwritten, hstopped, htimer, htask⟩ := cancelTask_frame b
  refine ⟨fun other task hother => ?_, hbegun ▸ h.begun, fun other hother hway => ?_, h.sorted,
    hwritten ▸ h.last, ?_⟩
  · rw [hbegun]
    unfold BalanceCheckpoint.cancelTask at hother
    split at hother
    · exact h.fresh other task hother
    · obtain ⟨found, hfound⟩ := cancel_known hother
      exact h.fresh other found hfound
  · exact absurd hway (h.cancelTask_underWay hother)
  · rw [hstopped, htimer, htask]
    exact fun hstop => ⟨(h.stopped hstop).1, rfl⟩

/-- A task begins in the background: it is the only one under way there. -/
theorem startTask (h : Ordered told b) (hgoes : b.stopped = false) (settle : Option Settle) :
    Ordered (told ++ [.started b.begun]) (b.startTask settle) := by
  have hcancelled := h.cancelTask
  obtain ⟨hbegun, -, hstopped, -, -⟩ := cancelTask_frame b
  have hchecked : checkpoints (told ++ [.started b.begun]) = checkpoints told := by
    simp [checkpoints]
  refine ⟨fun other task hother => ?_, fun other hother => ?_, fun other hother hway => ?_,
    hchecked ▸ h.sorted, hchecked ▸ hcancelled.last, fun hstop => ?_⟩
  · show other < b.cancelTask.begun + 1
    rcases Dict.get?_set_eq_some.mp hother with ⟨rfl, -⟩ | ⟨-, hheld⟩
    · exact Nat.lt_succ_self _
    · exact Nat.lt_succ_of_lt (hcancelled.fresh other task hheld)
  · show other < b.cancelTask.begun + 1
    rcases List.mem_append.mp hother with hold | hnew
    · exact Nat.lt_succ_of_lt (hcancelled.begun other hold)
    · obtain rfl := Record.started.inj (List.mem_singleton.mp hnew)
      exact hbegun ▸ Nat.lt_succ_self _
  · show some b.cancelTask.begun = some other
    obtain ⟨task, htask, hrunning⟩ := hway
    rcases Dict.get?_set_eq_some.mp htask with ⟨rfl, -⟩ | ⟨hne, hheld⟩
    · rfl
    · rcases List.mem_append.mp hother with hold | hnew
      · exact absurd ⟨task, hheld, hrunning⟩ (h.cancelTask_underWay hold)
      · obtain rfl := Record.started.inj (List.mem_singleton.mp hnew)
        rw [hbegun]
  · have hstop : b.cancelTask.stopped = true := hstop
    rw [hstopped, hgoes] at hstop
    cases hstop

/-- A task leaves the keeper as it is. -/
theorem quiet {later : BalanceCheckpoint} (h : Ordered told b) (hid : id < b.begun)
    (halone : .started id ∈ told → later.UnderWay id → b.task = some id) (hquiet : Quiet id b later) :
    Ordered told later where
  fresh other task hother := by
    rw [hquiet.begun]
    by_cases hsame : other = id
    · exact hsame ▸ hid
    · exact h.fresh other task (hquiet.tasks other hsame ▸ hother)
  begun := hquiet.begun ▸ h.begun
  alone other hother hway := by
    rw [hquiet.task]
    by_cases hsame : other = id
    · subst hsame
      exact halone hother hway
    · obtain ⟨task, htask, hrunning⟩ := hway
      exact h.alone other hother ⟨task, hquiet.tasks other hsame ▸ htask, hrunning⟩
  sorted := h.sorted
  last := hquiet.writtenMs ▸ h.last
  stopped := by
    rw [hquiet.stopped, hquiet.timer, hquiet.task]
    exact h.stopped

/-- A value that is due is written. -/
theorem wrote {later : BalanceCheckpoint} (h : Ordered told later) {t : ℤ} {value : CheckpointValue}
    (hdue : Due later t value) :
    Ordered (told ++ [.wrote value]) { later with writtenMs := some t } := by
  have hchecked : checkpoints (told ++ [.wrote value]) = checkpoints told ++ [t] := by
    simp [checkpoints, hdue.checkpointMs]
  have hno {other : ℕ} (hother : .started other ∈ told ++ [Record.wrote value]) :
      .started other ∈ told := by
    simpa using hother
  have hbefore : ∀ earlier ∈ checkpoints told, earlier ≤ t := by
    intro earlier hearlier
    obtain ⟨written, hwritten, hle⟩ := h.last earlier hearlier
    exact hle.trans (hdue.newer written hwritten)
  refine ⟨h.fresh, fun other hother => h.begun other (hno hother),
    fun other hother => h.alone other (hno hother), ?_, fun earlier hearlier => ?_, h.stopped⟩
  · rw [hchecked]
    exact List.pairwise_append.mpr ⟨h.sorted, List.pairwise_singleton _ _, fun earlier hearlier last hlast =>
      List.mem_singleton.mp hlast ▸ hbefore earlier hearlier⟩
  · rw [hchecked] at hearlier
    refine ⟨t, rfl, ?_⟩
    rcases List.mem_append.mp hearlier with hold | hnew
    · exact hbefore earlier hold
    · exact le_of_eq (List.mem_singleton.mp hnew)

/-- A task runs from one await to the next. -/
theorem ran {done : BalanceCheckpoint × List Record} (h : Ordered told b) (hid : id < b.begun)
    (halone : .started id ∈ told → b.task = some id) (hran : Ran id b done) :
    Ordered (told ++ done.2) done.1 := by
  have hdues {later : BalanceCheckpoint} {t : ℤ} {value : CheckpointValue} (hquiet : Quiet id b later)
      (hdue : Due b t value) : Due later t value :=
    ⟨hquiet.stopped ▸ hdue.stopped, hquiet.writtenMs ▸ hdue.newer, hdue.checkpointMs⟩
  cases hran with
  | @quiet later more hquiet htold =>
    have hkept := h.quiet hid (fun hstarted _ => halone hstarted) hquiet
    have hchecked : checkpoints (told ++ more) = checkpoints told := by
      rw [checkpoints, List.filterMap_append]
      exact (congrArg _ (checkpoints_asked htold)).trans (List.append_nil _)
    have hno {other : ℕ} (hother : .started other ∈ told ++ more) : .started other ∈ told := by
      rcases List.mem_append.mp hother with hold | hnew
      · exact hold
      · obtain ⟨request, heq⟩ := htold _ hnew
        cases heq
    exact ⟨hkept.fresh, fun other hother => hkept.begun other (hno hother),
      fun other hother => hkept.alone other (hno hother), hchecked ▸ hkept.sorted,
      hchecked ▸ hkept.last, hkept.stopped⟩
  | wrote hquiet hdue => exact (h.quiet hid (fun hstarted _ => halone hstarted) hquiet).wrote (hdues hquiet hdue)
  | started settle hquiet hdue =>
    have hwrote := (h.quiet hid (fun hstarted _ => halone hstarted) hquiet).wrote (hdues hquiet hdue)
    have hstarted := hwrote.startTask (hquiet.stopped.trans hdue.stopped) (some settle)
    rwa [List.append_assoc] at hstarted

end Ordered

/-! ## A run -/

/-- A task that is woken goes on, is done for, or was not there. -/
theorem ran_wakes (settings : Settings) (reply : Reply) :
    b.wakes settings moment id reply = (b, []) ∨
      b.UnderWay id ∧ Ran id b (b.wakes settings moment id reply) ∨
      (∃ task, b.tasks.get? id = some task) ∧ Quiet id b (b.wakes settings moment id reply).1 ∧
        (b.wakes settings moment id reply).2 = [] ∧
        ¬ (b.wakes settings moment id reply).1.UnderWay id := by
  unfold BalanceCheckpoint.wakes
  split
  · exact .inl rfl
  rename_i task htask
  split
  · refine .inr (.inr ⟨⟨task, htask⟩, (quiet_letGo id b).trans (quiet_ended id _), rfl, ?_⟩)
    rintro ⟨task, hgone, -⟩
    exact (Dict.get?_erase_eq_some.mp hgone).1 rfl
  · rename_i hrunning
    have hway : b.UnderWay id := ⟨task, htask, Bool.eq_false_iff.mpr hrunning⟩
    split
    · split
      · exact .inr (.inl ⟨hway, ran_run settings none false⟩)
      · exact .inl rfl
    · exact .inr (.inl ⟨hway, ran_resume reply⟩)

/-- A timer that is armed or gone keeps the keeper in order. -/
theorem Ordered.armed (h : Ordered told b) (hgoes : b.stopped = false) (timer : Option ℤ) :
    Ordered told { b with timer } where
  fresh := h.fresh
  begun := h.begun
  alone := h.alone
  sorted := h.sorted
  last := h.last
  stopped hstop := by
    have hstop : b.stopped = true := hstop
    rw [hgoes] at hstop
    cases hstop

/-- What the timer does is told. -/
theorem Ordered.tells (h : Ordered told b) {record : Record} (hstarted : ∀ id, record ≠ .started id)
    (hwrote : ∀ value, record ≠ .wrote value) : Ordered (told ++ [record]) b := by
  have hchecked : checkpoints (told ++ [record]) = checkpoints told := by
    cases record with
    | wrote value => exact absurd rfl (hwrote value)
    | _ => simp [checkpoints]
  have hno {id : ℕ} (hid : .started id ∈ told ++ [record]) : .started id ∈ told := by
    rcases List.mem_append.mp hid with hold | hnew
    · exact hold
    · exact absurd (List.mem_singleton.mp hnew).symm (hstarted id)
  exact ⟨h.fresh, fun id hid => h.begun id (hno hid), fun id hid => h.alone id (hno hid),
    hchecked ▸ h.sorted, hchecked ▸ h.last, h.stopped⟩

/-- Arming the timer. -/
theorem Ordered.arm {settings : Settings} {afterMs : ℤ} {armed : BalanceCheckpoint × List Record}
    (h : Ordered told b) (hgoes : b.stopped = false) (harm : b.arm settings moment afterMs = some armed) :
    Ordered (told ++ armed.2) armed.1 ∧ armed.1.stopped = false := by
  unfold BalanceCheckpoint.arm at harm
  obtain ⟨hour, -, hmade⟩ := Option.bind_eq_some_iff.mp harm
  split at hmade
  · cases hmade
  · obtain rfl := Option.some.inj hmade
    exact ⟨(h.armed hgoes _).tells (by simp) (by simp), hgoes⟩

/-- A stop takes the timer and the background task away. -/
theorem stop_eq (b : BalanceCheckpoint) :
    b.stop = { ({ b with timer := none } : BalanceCheckpoint).cancelTask with stopped := true } := by
  cases htask : b.task with
  | none => simp [BalanceCheckpoint.stop, BalanceCheckpoint.cancelTask, htask]
  | some id =>
    cases hget : b.tasks.get? id with
    | none =>
      simp [BalanceCheckpoint.stop, BalanceCheckpoint.cancelTask, BalanceCheckpoint.cancel, htask, hget]
    | some task =>
      simp [BalanceCheckpoint.stop, BalanceCheckpoint.cancelTask, BalanceCheckpoint.cancel, htask, hget]

/-- A stopped keeper has no timer and no task. -/
theorem Ordered.stop (h : Ordered told b) : Ordered told b.stop := by
  have hcleared : Ordered told { b with timer := none } :=
    ⟨h.fresh, h.begun, h.alone, h.sorted, h.last, fun hstop => ⟨rfl, (h.stopped hstop).2⟩⟩
  have hcancelled := hcleared.cancelTask
  obtain ⟨-, -, -, htimer, htask⟩ := cancelTask_frame { b with timer := none }
  rw [stop_eq]
  exact ⟨hcancelled.fresh, hcancelled.begun, hcancelled.alone, hcancelled.sorted, hcancelled.last,
    fun _ => ⟨htimer, htask⟩⟩

/-- One step of the keeper keeps it in order. -/
theorem Ordered.act (settings : Settings) (h : Ordered told b) (action : Action) :
    Ordered (told ++ (b.act settings moment action).2) (b.act settings moment action).1 := by
  cases action with
  | refresh trader bounded =>
    -- a refresh cancels the background walk before it begins its own
    have hcancelled := h.cancelTask
    show Ordered (told ++ (b.refresh settings moment trader bounded).2)
      (b.refresh settings moment trader bounded).1
    unfold BalanceCheckpoint.refresh
    dsimp only
    split
    · split
      · rwa [List.append_nil]
      · refine ⟨hcancelled.fresh, fun id hid => hcancelled.begun id (by simpa using hid),
          fun id hid => hcancelled.alone id (by simpa using hid), ?_, ?_, hcancelled.stopped⟩
        · simpa [checkpoints] using hcancelled.sorted
        · simpa [checkpoints] using hcancelled.last
    · have hbegun : Ordered told { b.cancelTask with begun := b.cancelTask.begun + 1 } :=
        ⟨fun id task hid => Nat.lt_succ_of_lt (hcancelled.fresh id task hid),
          fun id hid => Nat.lt_succ_of_lt (hcancelled.begun id hid), hcancelled.alone, hcancelled.sorted,
          hcancelled.last, hcancelled.stopped⟩
      refine hbegun.ran (Nat.lt_succ_self _) (fun hstarted => ?_) (ran_run settings _ _)
      exact absurd (hcancelled.begun _ hstarted) (lt_irrefl _)
  | schedule =>
    show Ordered (told ++ (b.schedule settings moment).2) (b.schedule settings moment).1
    unfold BalanceCheckpoint.schedule
    split
    · rename_i hgoes
      rw [Bool.and_eq_true, Bool.not_eq_true'] at hgoes
      cases harm : b.arm settings moment (moment.nowMs - graceMs) with
      | none =>
        rw [Option.getD_none, List.append_nil]
        exact h.armed hgoes.2 none
      | some armed => exact (h.arm hgoes.2 harm).1
    · rwa [List.append_nil]
  | fires =>
    show Ordered (told ++ (b.fires settings moment).2) (b.fires settings moment).1
    unfold BalanceCheckpoint.fires
    split
    · rwa [List.append_nil]
    rename_i tMs htimer
    -- an armed timer is not that of a stopped keeper
    have hgoes : b.stopped = false := by
      cases hstop : b.stopped with
      | false => rfl
      | true => exact absurd (htimer.symm.trans (h.stopped hstop).1) (Option.some_ne_none _)
    have hfired : Ordered (told ++ [.fired tMs]) b := h.tells (by simp) (by simp)
    split
    · exact hfired.armed hgoes none
    · rename_i armed more harm
      obtain ⟨hordered, hstopped⟩ := hfired.arm hgoes harm
      have hstarted := hordered.startTask hstopped none
      rwa [List.append_assoc, List.append_assoc] at hstarted
  | stop =>
    show Ordered (told ++ []) b.stop
    rw [List.append_nil]
    exact h.stop
  | cancel id =>
    show Ordered (told ++ []) (b.cancel id)
    rw [List.append_nil]
    exact h.cancel id
  | wakes id reply =>
    show Ordered (told ++ (b.wakes settings moment id reply).2) (b.wakes settings moment id reply).1
    -- the task that wakes does nothing, runs on, or ends
    rcases ran_wakes settings reply with hnothing | ⟨⟨task, htask, hrunning⟩, hran⟩ | hended
    · rw [hnothing, List.append_nil]
      exact h
    · exact h.ran (h.fresh id task htask) (fun hstarted => h.alone id hstarted ⟨task, htask, hrunning⟩) hran
    · obtain ⟨⟨task, htask⟩, hquiet, htold, hover⟩ := hended
      rw [htold, List.append_nil]
      exact h.quiet (h.fresh id task htask) (fun _ hway => absurd hway hover) hquiet

/-- The keeper is in order after every run. -/
theorem ordered_after (settings : Settings) (inputs : List (Moment × Action)) :
    Ordered ((BalanceCheckpoint.machine settings).told {} inputs)
      ((BalanceCheckpoint.machine settings).after {} inputs) := by
  have hstart : Ordered [] {} :=
    ⟨fun id task htask => (by cases htask), fun id hid => (by cases hid), fun id hid => (by cases hid),
      List.Pairwise.nil, fun t ht => (by cases ht), fun hstop => (by cases hstop)⟩
  exact Machine.told_invariant (fun told b input h => h.act settings input.2) hstart inputs

/-- The checkpoints of the values written never go back, however refreshes, the timer's walks and those
of the background overtake each other. -/
theorem checkpoints_never_go_back (settings : Settings) (inputs : List (Moment × Action)) :
    (checkpoints ((BalanceCheckpoint.machine settings).told {} inputs)).Pairwise (· ≤ ·) :=
  (ordered_after settings inputs).sorted

/-! ## A stopped keeper -/

/-- A record of a stopped keeper: nothing is written, armed or begun in the background. -/
def Record.Silent : Record → Prop
  | .asked _ _ => True
  | _ => False

/-- A task of a stopped keeper only asks. -/
theorem ran_stopped {done : BalanceCheckpoint × List Record} (hran : Ran id b done)
    (hstop : b.stopped = true) :
    done.1.stopped = true ∧ done.1.timer = b.timer ∧ ∀ record ∈ done.2, record.Silent := by
  cases hran with
  | quiet hquiet htold =>
    refine ⟨hquiet.stopped.trans hstop, hquiet.timer, fun record hrecord => ?_⟩
    obtain ⟨request, rfl⟩ := htold record hrecord
    trivial
  | wrote hquiet hdue => exact absurd (hstop.symm.trans hdue.stopped) (by decide)
  | started settle hquiet hdue => exact absurd (hstop.symm.trans hdue.stopped) (by decide)

/-- A stopped keeper stays so, and its tasks only end what they ask. -/
theorem act_stopped (settings : Settings) (hstop : b.stopped = true) (htimer : b.timer = none)
    (action : Action) :
    (b.act settings moment action).1.stopped = true ∧ (b.act settings moment action).1.timer = none ∧
      ∀ record ∈ (b.act settings moment action).2, record.Silent := by
  have hcancelled := cancelTask_frame b
  obtain ⟨-, -, hstopped, hsame, -⟩ := hcancelled
  cases action with
  | refresh trader bounded =>
    show (b.refresh settings moment trader bounded).1.stopped = true ∧ _
    have hrefresh : (b.refresh settings moment trader bounded).1.stopped = true ∧
        (b.refresh settings moment trader bounded).1.timer = none ∧
        ∀ record ∈ (b.refresh settings moment trader bounded).2, record.Silent := by
      unfold BalanceCheckpoint.refresh
      dsimp only
      split
      · rw [hstopped, hstop]
        exact ⟨hstopped.trans hstop, hsame.trans htimer, by simp⟩
      · have hran : Ran b.cancelTask.begun { b.cancelTask with begun := b.cancelTask.begun + 1 }
            (({ b.cancelTask with begun := b.cancelTask.begun + 1 } : BalanceCheckpoint).run settings
              moment b.cancelTask.begun (some trader) bounded) := ran_run settings (some trader) bounded
        obtain ⟨hstays, htimers, htold⟩ := ran_stopped hran (hstopped.trans hstop)
        exact ⟨hstays, htimers.trans (hsame.trans htimer), htold⟩
    exact hrefresh
  | schedule =>
    have hquiet : b.schedule settings moment = (b, []) := by
      unfold BalanceCheckpoint.schedule
      rw [hstop, Bool.not_true, Bool.and_false]
      rfl
    show (b.schedule settings moment).1.stopped = true ∧ (b.schedule settings moment).1.timer = none ∧
      ∀ record ∈ (b.schedule settings moment).2, record.Silent
    rw [hquiet]
    exact ⟨hstop, htimer, by simp⟩
  | fires =>
    have hquiet : b.fires settings moment = (b, []) := by
      unfold BalanceCheckpoint.fires
      rw [htimer]
    show (b.fires settings moment).1.stopped = true ∧ (b.fires settings moment).1.timer = none ∧
      ∀ record ∈ (b.fires settings moment).2, record.Silent
    rw [hquiet]
    exact ⟨hstop, htimer, by simp⟩
  | stop =>
    obtain ⟨-, -, hstays, htimers, -⟩ := cancelTask_frame { b with stopped := true, timer := none }
    exact ⟨hstays, htimers, by simp [BalanceCheckpoint.act]⟩
  | cancel id =>
    obtain ⟨-, -, hstays, htimers, -⟩ := cancel_frame b id
    exact ⟨hstays.trans hstop, htimers.trans htimer, by simp [BalanceCheckpoint.act]⟩
  | wakes id reply =>
    show (b.wakes settings moment id reply).1.stopped = true ∧
      (b.wakes settings moment id reply).1.timer = none ∧
      ∀ record ∈ (b.wakes settings moment id reply).2, record.Silent
    -- a foreground walk may still run to its end, quietly
    rcases ran_wakes settings reply with hnothing | ⟨-, hran⟩ | ⟨-, hquiet, htold, -⟩
    · rw [hnothing]
      exact ⟨hstop, htimer, by simp⟩
    · obtain ⟨hstays, htimers, htold⟩ := ran_stopped hran hstop
      exact ⟨hstays, htimers.trans htimer, htold⟩
    · rw [htold]
      exact ⟨hquiet.stopped.trans hstop, hquiet.timer.trans htimer, by simp⟩

/-- At most one task of the background is under way at any time. Once stopped there is none, and nothing
is written, armed or begun any more, whatever still runs. -/
theorem background_alone (settings : Settings) (inputs : List (Moment × Action)) :
    let told := (BalanceCheckpoint.machine settings).told {} inputs
    let left := (BalanceCheckpoint.machine settings).after {} inputs
    (∀ id other, .started id ∈ told → .started other ∈ told → left.UnderWay id →
      left.UnderWay other → id = other) ∧
      (left.stopped = true → (∀ id, .started id ∈ told → ¬ left.UnderWay id) ∧
        ∀ more, ∀ record ∈ (BalanceCheckpoint.machine settings).told left more, record.Silent) := by
  have hordered := ordered_after settings inputs
  refine ⟨fun id other hid hother hway hotherWay => ?_, fun hstop => ⟨fun id hid hway => ?_, ?_⟩⟩
  · exact Option.some.inj ((hordered.alone id hid hway).symm.trans (hordered.alone other hother hotherWay))
  · have hnone := (hordered.stopped hstop).2
    exact Option.some_ne_none _ ((hordered.alone id hid hway).symm.trans hnone)
  · have htimer := (hordered.stopped hstop).1
    intro more
    generalize (BalanceCheckpoint.machine settings).after {} inputs = left at hstop htimer
    induction more generalizing left with
    | nil => exact fun record hrecord => absurd hrecord List.not_mem_nil
    | cons input rest ih =>
      obtain ⟨hstays, htimers, hsilent⟩ := act_stopped settings hstop htimer input.2
      intro record hrecord
      rcases List.mem_append.mp hrecord with hnow | hlater
      · exact hsilent record hnow
      · exact ih _ hstays htimers record hlater

end BalanceHistory

end NautilusCtrader
