import NautilusCtrader.Balance.Account
import NautilusCtrader.Balance.Checkpoint

/-!
# The balances that are written

A `World` is the keeper with the account it reads, which goes on while tasks wait. Every walk under way
stays right, so every balance written as available is the ledger's at its checkpoint, then and for
good.
-/

namespace NautilusCtrader

open Common

namespace BalanceHistory

/-! ## The world -/

/-- The keeper, the account, and the latest moment the node's clock has shown. -/
structure World where
  account : Account
  keeper : BalanceCheckpoint := {}
  clockMs : ℤ := 0

inductive Happening
  | books (account : Account)
  | acts (moment : Moment) (action : Action)

/-- The request a task waits for the answer of. -/
def Settle.request (settle : Settle) : Option Request :=
  match settle.stage with
  | .handedOver | .depositTurn => none
  | .firstTrader | .latestTrader => some .trader
  | .backDeals => some (.deals settle.walk.windowBack)
  | .backCashFlows _ => some (.cashFlows settle.walk.windowBack)
  | .depositCashFlows startMs endMs _ _ => some (.cashFlows ⟨startMs, endMs⟩)
  | .topDeals _ _ window _ => some (.deals window)
  | .topCashFlows _ _ window _ _ => some (.cashFlows window)

/-- The broker answers a request as the account is. -/
def Account.Answers (account : Account) : Request → Reply → Prop
  | .trader, .trader trader => account.Registers trader
  | .deals window, .deals deals true => account.ListsDeals window deals
  | .cashFlows window, .cashFlows operations => account.ListsCashFlows window operations
  | _, _ => True

namespace World

/-- What happens to the world. -/
def machine (settings : Settings) : Machine World Happening Record where
  step w
    | .books account => ({ w with account }, [])
    | .acts moment action =>
      let done := w.keeper.act settings moment action
      ({ w with keeper := done.1, clockMs := moment.nowMs }, done.2)

/-- The broker tells what the account is. -/
def Told (w : World) : Action → Prop
  | .refresh trader _ => w.account.Registers trader
  | .wakes id reply => ∀ task, w.keeper.tasks.get? id = some task →
      ∀ settle ∈ task.settle, ∀ request ∈ settle.request, w.account.Answers request reply
  | _ => True

/-- The clock goes on, the account goes on behind it, and the broker tells what the account is. -/
def Honest (w : World) : Happening → Prop
  | .books account => w.account.Grows w.clockMs account
  | .acts moment action => w.clockMs ≤ moment.nowMs ∧ w.Told action

end World

/-! ## Right tasks -/

/-- What a task keeps while it waits. -/
def Stage.Right (account : Account) (walk : Walk) : Stage → Prop
  | .backCashFlows deals => account.ListsDeals walk.windowBack deals
  | .topDeals latest nowMs window rest =>
    account.Registers latest ∧ walk.coveredFromMs ≤ nowMs ∧
      ∀ other ∈ window :: rest, walk.coveredFromMs ≤ other.fromMs
  | .topCashFlows latest nowMs window rest deals =>
    account.Registers latest ∧ walk.coveredFromMs ≤ nowMs ∧
      (∀ other ∈ window :: rest, walk.coveredFromMs ≤ other.fromMs) ∧
      ∀ deal ∈ deals, .deal deal ∈ account.items ∧ window.Holds deal.executionTimestamp
  | _ => True

/-- A task's walk is right, and the trader it read registered when the account was. -/
structure Settle.Right (account : Account) (clockMs : ℤ) (settle : Settle) : Prop where
  walk : settle.walk.Right account clockMs
  trader : ∀ trader ∈ settle.trader, account.Registers trader

/-- The walks under way are right. -/
def BalanceCheckpoint.Right (account : Account) (clockMs : ℤ) (b : BalanceCheckpoint) : Prop :=
  ∀ id task, b.tasks.get? id = some task → ∀ settle ∈ task.settle,
    settle.Right account clockMs ∧ settle.stage.Right account settle.walk

/-- A balance written as available is the ledger's before its checkpoint, which the clock has reached. -/
def Account.Had (account : Account) (clockMs : ℤ) (value : CheckpointValue) : Prop :=
  value.status = .available → ∃ t, value.checkpointMs = some t ∧ t ≤ clockMs ∧
    value.balance = some (account.ledger.balanceBefore t)

/-- A step leaves right walks, and writes what the account had. -/
structure Fine (account : Account) (clockMs : ℤ) (ran : BalanceCheckpoint × List Record) : Prop where
  right : ran.1.Right account clockMs
  had : ∀ value, .wrote value ∈ ran.2 → account.Had clockMs value

variable {account : Account} {clockMs : ℤ} {b : BalanceCheckpoint} {id : ℕ} {settle : Settle}
  {moment : Moment}

/-- The trader a task read first is the account's. -/
theorem Settle.Right.first (h : settle.Right account clockMs) :
    account.Registers settle.first := by
  intro registered hgiven
  cases htrader : settle.trader with
  | none => simp [Settle.first, htrader, registration] at hgiven
  | some trader =>
    refine h.trader trader htrader registered ?_
    rwa [Settle.first, htrader] at hgiven

/-- The newer of two traders of the account is the account's. -/
theorem Account.Registers.newer {first second : ProtoOATrader} (hfirst : account.Registers first)
    (hsecond : account.Registers second) : account.Registers (newer first second) := by
  unfold BalanceHistory.newer
  split
  · exact hsecond
  · exact hfirst

/-- The windows from a start on do not begin before it. -/
theorem windowsFrom_from {toMs start : ℤ} {fuel : ℕ} {window : History.Window}
    (h : window ∈ windowsFrom toMs fuel start) : start ≤ window.fromMs := by
  induction fuel generalizing start with
  | zero => exact absurd h List.not_mem_nil
  | succ fuel ih =>
    unfold windowsFrom at h
    split at h
    · rcases List.mem_cons.mp h with rfl | hrest
      · exact le_rfl
      · have := ih hrest
        unfold weekMs at this
        omega
    · exact absurd h List.not_mem_nil

/-- Nor do those of a range, week by week. -/
theorem weeklyWindows_from {fromMs toMs : ℤ} {window : History.Window}
    (h : window ∈ weeklyWindows fromMs toMs) : fromMs ≤ window.fromMs :=
  windowsFrom_from h

/-- A checkpoint that is found has come. -/
theorem checkpointAt_le {micros hour t : ℤ} {zone : Zone}
    (h : Checkpoints.checkpointAt (.aware micros) hour zone = .ok t) : t * 1000000 ≤ micros := by
  unfold Checkpoints.checkpointAt at h
  obtain ⟨day, hday, hfound⟩ := bind_eq_ok.mp h
  have hmicros : day.1 = micros := by
    unfold Checkpoints.localDay at hday
    dsimp only at hday
    split at hday
    · obtain rfl := Except.ok.inj hday
      rfl
    · cases hday
  dsimp only at hfound
  split at hfound
  · rename_i found hfind
    obtain rfl := Except.ok.inj hfound
    have := List.find?_some hfind
    rw [hmicros] at this
    simpa using this
  · cases hfound

namespace BalanceCheckpoint.Right

/-- The running task ends. -/
theorem ended (h : b.Right account clockMs) (id : ℕ) : (b.ended id).Right account clockMs :=
  Dict.forall_erase h id

/-- It goes on to its next await. -/
theorem awaits (h : b.Right account clockMs) (hsettle : settle.Right account clockMs) {stage : Stage}
    (hstage : stage.Right account settle.walk) : (b.awaits id settle stage).Right account clockMs := by
  refine Dict.forall_set h fun other hother => ?_
  obtain rfl := Option.some.inj hother
  exact ⟨⟨hsettle.walk, hsettle.trader⟩, hstage⟩

/-- It lets the lock of the deposit walk go. -/
theorem letGo (h : b.Right account clockMs) (id : ℕ) : (b.letGo id).Right account clockMs := by
  unfold BalanceCheckpoint.letGo
  split <;> exact h

/-- A task is cancelled. -/
theorem cancel (h : b.Right account clockMs) (id : ℕ) : (b.cancel id).Right account clockMs := by
  unfold BalanceCheckpoint.cancel
  split
  · exact h
  · rename_i task htask
    exact Dict.forall_set h fun settle hsettle => h id task htask settle hsettle

/-- The background task is cancelled. -/
theorem cancelTask (h : b.Right account clockMs) : b.cancelTask.Right account clockMs := by
  unfold BalanceCheckpoint.cancelTask
  split
  · exact h
  · exact h.cancel _

/-- The background task begins where the foreground left off. -/
theorem startTask (h : b.Right account clockMs) {started : Option Settle}
    (hstarted : ∀ settle ∈ started, settle.Right account clockMs ∧
      settle.stage.Right account settle.walk) :
    (b.startTask started).Right account clockMs :=
  Dict.forall_set h.cancelTask hstarted

end BalanceCheckpoint.Right

/-! ## A step writes what the account had -/

/-- The first deposit changes no balance. -/
theorem had_withDeposit {value : CheckpointValue} (h : account.Had clockMs value)
    (found : Option BalanceChange) (registrationMs : Option ℤ) :
    account.Had clockMs (withDeposit found value registrationMs) := by
  unfold withDeposit
  split
  · exact h
  split
  · exact h
  split <;> exact h

/-- A task hands its value over. -/
theorem fine_close (h : b.Right account clockMs) (hsettle : settle.Right account clockMs)
    {value : CheckpointValue} (hvalue : account.Had clockMs value) :
    Fine account clockMs (b.close moment id settle value) := by
  have hended := h.ended id
  unfold BalanceCheckpoint.close
  dsimp only
  split
  · exact ⟨hended, by simp⟩
  split
  · exact ⟨hended, by simp⟩
  have hwrote : ∀ other, .wrote other ∈ [Record.wrote (withDeposit (b.ended id).deposit value
      settle.registrationMs)] → account.Had clockMs other := by
    intro other hother
    obtain rfl := Record.wrote.inj (List.mem_singleton.mp hother)
    exact had_withDeposit hvalue _ _
  split
  · exact ⟨hended, hwrote⟩
  split
  · refine ⟨BalanceCheckpoint.Right.startTask ?_ fun other hother => ?_, by simpa using hwrote⟩
    · exact hended
    · obtain rfl := Option.some.inj hother
      exact ⟨⟨hsettle.walk, hsettle.trader⟩, trivial⟩
  · exact ⟨hended, hwrote⟩

/-- A walk fails: its reason is handed over. -/
theorem fine_fail (h : b.Right account clockMs) (hsettle : settle.Right account clockMs)
    (failure : Failure) : Fine account clockMs (b.fail moment id settle failure) := by
  unfold BalanceCheckpoint.fail
  split
  · exact ⟨(h.letGo id).ended id, by simp⟩
  · have hfailed : Settle.Right account clockMs
        { settle with walk := { settle.walk with failure := some .requestFailed } } :=
      ⟨hsettle.walk.failed .requestFailed, hsettle.trader⟩
    refine fine_close (h.letGo id) hfailed fun havailable => ?_
    exact absurd havailable (by simp [Walk.requestFailed])

/-- A walk ends with what the newest trader makes of it. -/
theorem fine_finish (h : b.Right account clockMs) (hsettle : settle.Right account clockMs)
    {latest : ProtoOATrader} (hlatest : account.Registers latest) :
    Fine account clockMs (b.finish moment id settle latest) := by
  unfold BalanceCheckpoint.finish
  split
  · exact fine_fail h hsettle _
  · rename_i value hvalue
    exact fine_close h hsettle fun havailable =>
      ⟨settle.walk.tMs, Walk.value_checkpointMs hvalue, hsettle.walk.begun,
        hsettle.walk.value hlatest hvalue havailable⟩

/-- The next window of the latest changes is read, or the walk ends. -/
theorem fine_topNext (h : b.Right account clockMs) (hsettle : settle.Right account clockMs)
    {latest : ProtoOATrader} (hlatest : account.Registers latest) {nowMs : ℤ}
    (hnow : settle.walk.coveredFromMs ≤ nowMs) {windows : List History.Window}
    (hwindows : ∀ window ∈ windows, settle.walk.coveredFromMs ≤ window.fromMs) :
    Fine account clockMs (b.topNext moment id settle latest nowMs windows) := by
  cases windows with
  | nil =>
    have hwalk := hsettle.walk
    have htopped : Settle.Right account clockMs
        { settle with walk := { settle.walk with upperMs := nowMs } } :=
      ⟨⟨hwalk.begun, ⟨hwalk.read.1, hnow, hwalk.read.2.2⟩, hwalk.holds, hwalk.since, hwalk.covers⟩,
        hsettle.trader⟩
    exact fine_finish h htopped hlatest
  | cons window rest =>
    exact ⟨h.awaits hsettle ⟨hlatest, hnow, hwindows⟩, by simp [BalanceCheckpoint.topNext]⟩

/-- The latest changes are read once the way back is done. -/
theorem fine_topUp (h : b.Right account moment.nowMs) (hsettle : settle.Right account moment.nowMs)
    {latest : ProtoOATrader} (hlatest : account.Registers latest) :
    Fine account moment.nowMs (b.topUp moment id settle latest) := by
  unfold BalanceCheckpoint.topUp
  split
  · refine fine_topNext h hsettle hlatest hsettle.walk.read.2.2 fun window hwindow => ?_
    exact hsettle.walk.read.2.1.trans (weeklyWindows_from hwindow)
  · exact fine_finish h hsettle hlatest

/-- A task leaves the deposit walk and goes on. -/
theorem fine_leaveDeposit (h : b.Right account clockMs) (hsettle : settle.Right account clockMs) :
    Fine account clockMs (b.leaveDeposit id settle) :=
  ⟨(h.letGo id).awaits hsettle trivial, by simp [BalanceCheckpoint.leaveDeposit]⟩

/-- The next window of the deposit walk is read, or the walk is left. -/
theorem fine_depositNext (h : b.Right account clockMs) (hsettle : settle.Right account clockMs)
    (left : ℕ) : Fine account clockMs (b.depositNext moment id settle left) := by
  unfold BalanceCheckpoint.depositNext
  split
  · exact fine_leaveDeposit h hsettle
  split
  · exact fine_leaveDeposit h hsettle
  split
  · exact ⟨h.awaits hsettle trivial, by simp⟩
  · exact fine_leaveDeposit h hsettle

/-- The deposit walk is taken up with its lock. -/
theorem fine_walkDepositLocked (h : b.Right account clockMs) (hsettle : settle.Right account clockMs) :
    Fine account clockMs (b.walkDepositLocked moment id settle) := by
  unfold BalanceCheckpoint.walkDepositLocked
  split
  · refine fine_depositNext ?_ hsettle _
    exact h
  · exact fine_leaveDeposit h hsettle

/-- A window of the deposit walk was read. -/
theorem fine_depositRead (h : b.Right account clockMs) (hsettle : settle.Right account clockMs)
    (endMs nowMs : ℤ) (left : ℕ) (operations : List ProtoOADepositWithdraw) :
    Fine account clockMs (b.depositRead moment id settle endMs nowMs left operations) := by
  unfold BalanceCheckpoint.depositRead
  dsimp only
  split
  · exact fine_leaveDeposit h hsettle
  split
  · split <;> exact fine_leaveDeposit h hsettle
  split
  · split <;> exact fine_leaveDeposit h hsettle
  · refine fine_depositNext ?_ hsettle left
    split <;> exact h

/-- A task goes to the deposit walk, or waits for its lock. -/
theorem fine_walkDeposit (h : b.Right account clockMs) (hsettle : settle.Right account clockMs) :
    Fine account clockMs (b.walkDeposit moment id settle) := by
  unfold BalanceCheckpoint.walkDeposit
  split
  · exact fine_walkDepositLocked h hsettle
  · exact ⟨BalanceCheckpoint.Right.awaits h hsettle trivial, by simp⟩

/-- The next window back is read, or the walk goes on to the deposit. -/
theorem fine_walkBack (h : b.Right account clockMs) (hsettle : settle.Right account clockMs) :
    Fine account clockMs (b.walkBack moment id settle) := by
  unfold BalanceCheckpoint.walkBack
  split
  · exact ⟨h.awaits hsettle trivial, by simp⟩
  · exact fine_walkDeposit h hsettle

/-- A task begins to settle its checkpoint. -/
theorem fine_settles (h : b.Right account clockMs) (hsettle : settle.Right account clockMs) :
    Fine account clockMs (b.settles moment id settle) := by
  unfold BalanceCheckpoint.settles
  split
  · exact ⟨h.awaits hsettle trivial, by simp⟩
  · exact fine_walkBack h hsettle

/-- A walk begins at the moment it is for. -/
theorem right_begun {t : ℤ} (ht : t ≤ moment.nowMs) : Walk.Right account moment.nowMs
    { tMs := t, upperMs := moment.nowMs, coveredFromMs := moment.nowMs } where
  begun := ht
  read := ⟨Int.natCast_nonneg _, le_rfl, le_rfl⟩
  holds key found hfound := by cases hfound
  since key found hfound := by cases hfound
  covers hfailure change hchange hfrom hbefore := by
    have hfrom : (moment.nowMs : ℤ) ≤ change.tsMs := hfrom
    have hbefore : change.tsMs < t := hbefore
    omega

/-- A task runs for the first time. -/
theorem fine_run (settings : Settings) (h : b.Right account moment.nowMs)
    {trader : Option ProtoOATrader} (htrader : ∀ given ∈ trader, account.Registers given)
    (bounded : Bool) :
    Fine account moment.nowMs (b.run settings moment id trader bounded) := by
  unfold BalanceCheckpoint.run
  dsimp only
  split
  · exact ⟨h.ended id, by simp⟩
  split
  · exact ⟨h.ended id, by simp⟩
  · rename_i hour _ t ht
    have hcome := checkpointAt_le ht
    refine fine_settles h ⟨?_, htrader⟩
    exact right_begun (by omega)

/-- A task woken with an honest answer. -/
theorem fine_resume (h : b.Right account moment.nowMs) (hsettle : settle.Right account moment.nowMs)
    (hstage : settle.stage.Right account settle.walk) {reply : Reply}
    (hreply : ∀ request ∈ settle.request, account.Answers request reply) :
    Fine account moment.nowMs (b.resume moment id settle reply) := by
  have hquiet : Fine account moment.nowMs (b, []) := ⟨h, by simp⟩
  have hback := hsettle.walk
  -- one stage each: what the answer adds to the walk is of the account
  unfold BalanceCheckpoint.resume
  split
  · exact fine_settles h hsettle
  · split
    · exact fine_walkDepositLocked h hsettle
    · exact hquiet
  · exact hquiet
  · exact hquiet
  · exact hquiet
  · exact fine_fail h hsettle _
  · -- the trader is read, and the walk goes back
    rename_i trader hat
    have htrader : account.Registers trader := hreply .trader (by simp [Settle.request, hat])
    refine fine_walkBack h ⟨hsettle.walk, fun given hgiven => ?_⟩
    exact Option.some.inj hgiven ▸ htrader
  · -- a week of deals: its cash flows are read next unless the list is incomplete
    rename_i deals complete hat
    have hlist := hreply (.deals settle.walk.windowBack) (by simp [Settle.request, hat])
    split
    · rename_i hcomplete
      subst hcomplete
      exact ⟨h.awaits hsettle hlist, by simp⟩
    · refine fine_walkBack h ⟨?_, hsettle.trader⟩
      exact hback.incomplete_back settle.first
  · -- both lists of the week are read, so the walk has all of it
    rename_i deals operations hat
    have hdeals : account.ListsDeals settle.walk.windowBack deals := by
      rw [hat] at hstage
      exact hstage
    have hcash := hreply (.cashFlows settle.walk.windowBack) (by simp [Settle.request, hat])
    refine fine_walkBack h ⟨?_, hsettle.trader⟩
    exact hback.gather_back (Account.lists hdeals hcash) settle.first
  · exact fine_depositRead h hsettle _ _ _ _
  · -- the trader is read again, for the top-up
    rename_i trader hat
    have htrader : account.Registers trader := hreply .trader (by simp [Settle.request, hat])
    exact fine_topUp h hsettle (hsettle.first.newer htrader)
  · -- the deals since the walk began
    rename_i latest nowMs window rest deals complete hat
    rw [hat] at hstage
    obtain ⟨hlatest, hnow, hwindows⟩ := hstage
    have hlist := hreply (.deals window) (by simp [Settle.request, hat])
    split
    · rename_i hcomplete
      subst hcomplete
      exact ⟨h.awaits hsettle ⟨hlatest, hnow, hwindows, hlist.ours⟩, by simp⟩
    · have hfailed : Settle.Right account moment.nowMs { settle with walk := settle.walk.incomplete } :=
        ⟨hback.failed .incomplete, hsettle.trader⟩
      exact fine_topNext h hfailed hlatest hnow fun other hother =>
        hwindows other (List.mem_cons_of_mem _ hother)
  · -- and their cash flows: what is read is of the account, dated in the window
    rename_i latest nowMs window rest deals operations hat
    rw [hat] at hstage
    obtain ⟨hlatest, hnow, hwindows, hdeals⟩ := hstage
    have hcash := hreply (.cashFlows window) (by simp [Settle.request, hat])
    have hsince := hwindows window List.mem_cons_self
    have hitems : ∀ item ∈ deals.map Item.deal ++ operations.map .cashFlow,
        item ∈ account.items ∧ settle.walk.coveredFromMs ≤ item.tsMs := by
      intro item hitem
      rcases List.mem_append.mp hitem with hdeal | hoperation
      · obtain ⟨deal, hmem, rfl⟩ := List.mem_map.mp hdeal
        obtain ⟨hours, hholds⟩ := hdeals deal hmem
        exact ⟨hours, hsince.trans hholds.1⟩
      · obtain ⟨operation, hmem, rfl⟩ := List.mem_map.mp hoperation
        obtain ⟨hours, hholds⟩ := hcash.ours hmem
        exact ⟨hours, hsince.trans hholds.1⟩
    have hread : Settle.Right account moment.nowMs
        { settle with walk := settle.walk.read deals operations } :=
      ⟨hback.gather (fun item hitem => (hitems item hitem).1) fun item hitem => (hitems item hitem).2,
        hsettle.trader⟩
    have hkept := settle.walk.kept_gather (deals.map .deal ++ operations.map .cashFlow)
    refine fine_topNext h hread hlatest ?_ fun other hother => ?_
    · exact hkept.coveredFromMs ▸ hnow
    · exact hkept.coveredFromMs ▸ hwindows other (List.mem_cons_of_mem _ hother)
  · exact hquiet

/-- A task that is woken goes on with a reply of the account. -/
theorem fine_wakes (settings : Settings) (h : b.Right account moment.nowMs) {reply : Reply}
    (hreply : ∀ task, b.tasks.get? id = some task → ∀ settle ∈ task.settle,
      ∀ request ∈ settle.request, account.Answers request reply) :
    Fine account moment.nowMs (b.wakes settings moment id reply) := by
  unfold BalanceCheckpoint.wakes
  split
  · exact ⟨h, by simp⟩
  rename_i task htask
  split
  · exact ⟨(h.letGo id).ended id, by simp⟩
  split
  · split
    · exact fine_run settings h (by simp) false
    · exact ⟨h, by simp⟩
  · rename_i settle hsettle
    obtain ⟨hright, hstage⟩ := h id task htask settle hsettle
    exact fine_resume h hright hstage (hreply task htask settle hsettle)

/-- A refresh, in the foreground. -/
theorem fine_refresh (settings : Settings) (h : b.Right account moment.nowMs) {trader : ProtoOATrader}
    (htrader : account.Registers trader) (bounded : Bool) :
    Fine account moment.nowMs (b.refresh settings moment trader bounded) := by
  unfold BalanceCheckpoint.refresh
  dsimp only
  split
  · split
    · exact ⟨h.cancelTask, by simp⟩
    · refine ⟨h.cancelTask, fun value hvalue havailable => ?_⟩
      obtain rfl := Record.wrote.inj (List.mem_singleton.mp hvalue)
      cases havailable
  · refine fine_run settings ?_ ?_ bounded
    · exact h.cancelTask
    · exact fun given hgiven => Option.some.inj hgiven ▸ htrader

/-- The timer is armed for an occurrence of the hour. -/
theorem arm_eq_some {settings : Settings} {afterMs : ℤ} {ran : BalanceCheckpoint × List Record}
    (h : b.arm settings moment afterMs = some ran) :
    ∃ t, ran = ({ b with timer := some t }, [.armed t (max 0 (t + graceMs - moment.nowMs))]) := by
  unfold BalanceCheckpoint.arm at h
  obtain ⟨hour, -, harmed⟩ := Option.bind_eq_some_iff.mp h
  split at harmed
  · cases harmed
  · exact ⟨_, (Option.some.inj harmed).symm⟩

/-- One step of the keeper. -/
theorem fine_act (settings : Settings) (h : b.Right account moment.nowMs) {action : Action}
    (hrefresh : ∀ trader bounded, action = .refresh trader bounded → account.Registers trader)
    (hwakes : ∀ id reply, action = .wakes id reply → ∀ task, b.tasks.get? id = some task →
      ∀ settle ∈ task.settle, ∀ request ∈ settle.request, account.Answers request reply) :
    Fine account moment.nowMs (b.act settings moment action) := by
  cases action with
  | refresh trader bounded => exact fine_refresh settings h (hrefresh trader bounded rfl) bounded
  | schedule =>
    show Fine account moment.nowMs (b.schedule settings moment)
    unfold BalanceCheckpoint.schedule
    split
    · cases harm : b.arm settings moment (moment.nowMs - graceMs) with
      | none => exact ⟨h, by simp⟩
      | some ran =>
        obtain ⟨t, rfl⟩ := arm_eq_some harm
        exact ⟨h, by simp⟩
    · exact ⟨h, by simp⟩
  | fires =>
    show Fine account moment.nowMs (b.fires settings moment)
    unfold BalanceCheckpoint.fires
    split
    · exact ⟨h, by simp⟩
    split
    · exact ⟨h, by simp⟩
    · rename_i harm
      obtain ⟨t, heq⟩ := arm_eq_some harm
      obtain ⟨rfl, rfl⟩ := Prod.mk.inj heq
      refine ⟨BalanceCheckpoint.Right.startTask ?_ (by simp), by simp⟩
      exact h
  | stop =>
    refine ⟨BalanceCheckpoint.Right.cancelTask ?_, by simp [BalanceCheckpoint.act]⟩
    exact h
  | cancel id => exact ⟨h.cancel id, by simp [BalanceCheckpoint.act]⟩
  | wakes id reply => exact fine_wakes settings h (hwakes id reply rfl)

/-! ## A run -/

/-- The walks stay right as the clock goes forward. -/
theorem BalanceCheckpoint.Right.later {laterMs : ℤ} (h : b.Right account clockMs)
    (hlater : clockMs ≤ laterMs) : b.Right account laterMs := by
  intro id task htask settle hsettle
  obtain ⟨hright, hstage⟩ := h id task htask settle hsettle
  exact ⟨⟨hright.walk.later hlater, hright.trader⟩, hstage⟩

/-- A trader of the account stays one while it goes on. -/
theorem Account.Registers.grows {later : Account} {trader : ProtoOATrader}
    (h : account.Registers trader) (hgrows : account.Grows clockMs later) :
    later.Registers trader := by
  intro registered hgiven
  rw [hgrows.registered]
  exact h registered hgiven

/-- What a task waits for stays right while the account goes on. -/
theorem Stage.Right.grows {later : Account} {walk : Walk} {stage : Stage}
    (h : stage.Right account walk) (hwalk : walk.Right account clockMs)
    (hgrows : account.Grows clockMs later) : stage.Right later walk := by
  cases stage with
  | backCashFlows deals =>
    have hlist : account.ListsDeals walk.windowBack deals := h
    exact hlist.grows hgrows hwalk.read.2.2
  | topDeals latest nowMs window rest =>
    obtain ⟨hlatest, hwindows⟩ := h
    exact ⟨hlatest.grows hgrows, hwindows⟩
  | topCashFlows latest nowMs window rest deals =>
    obtain ⟨hlatest, hnow, hwindows, hdeals⟩ := h
    refine ⟨hlatest.grows hgrows, hnow, hwindows, fun deal hdeal => ?_⟩
    exact ⟨hgrows.mem_items (hdeals deal hdeal).1, (hdeals deal hdeal).2⟩
  | _ => trivial

/-- The walks stay right while the account goes on. -/
theorem BalanceCheckpoint.Right.grows {later : Account} (h : b.Right account clockMs)
    (hgrows : account.Grows clockMs later) : b.Right later clockMs := by
  intro id task htask settle hsettle
  obtain ⟨hright, hstage⟩ := h id task htask settle hsettle
  refine ⟨⟨hright.walk.grows hgrows, fun trader htrader => ?_⟩, hstage.grows hright.walk hgrows⟩
  exact (hright.trader trader htrader).grows hgrows

/-- What the account had before a checkpoint it had for good. -/
theorem Account.Had.grows {later : Account} {value : CheckpointValue}
    (h : account.Had clockMs value) (hgrows : account.Grows clockMs later) :
    later.Had clockMs value := by
  intro havailable
  obtain ⟨t, hcheckpoint, hcome, hbalance⟩ := h havailable
  exact ⟨t, hcheckpoint, hcome, by rw [hgrows.balanceBefore hcome, hbalance]⟩

/-- A checkpoint that has passed stays passed. -/
theorem Account.Had.later {laterMs : ℤ} {value : CheckpointValue} (h : account.Had clockMs value)
    (hlater : clockMs ≤ laterMs) : account.Had laterMs value := by
  intro havailable
  obtain ⟨t, hcheckpoint, hcome, hbalance⟩ := h havailable
  exact ⟨t, hcheckpoint, hcome.trans hlater, hbalance⟩

/-- Right walks, and everything written so far the account's. -/
structure World.Good (told : List Record) (w : World) : Prop where
  right : w.keeper.Right w.account w.clockMs
  had : ∀ value, .wrote value ∈ told → w.account.Had w.clockMs value

/-- A step of the account or of the keeper. -/
theorem World.good_step (settings : Settings) {told : List Record} {w : World} {happening : Happening}
    (h : w.Good told) (hhonest : w.Honest happening) :
    ((World.machine settings).step w happening).1.Good
      (told ++ ((World.machine settings).step w happening).2) := by
  cases happening with
  | books account =>
    have hgrows : w.account.Grows w.clockMs account := hhonest
    refine ⟨h.right.grows hgrows, fun value hvalue => ?_⟩
    rw [show ((World.machine settings).step w (.books account)).2 = [] from rfl,
      List.append_nil] at hvalue
    exact (h.had value hvalue).grows hgrows
  | acts moment action =>
    obtain ⟨hclock, htold⟩ := hhonest
    have hfine : Fine w.account moment.nowMs (w.keeper.act settings moment action) := by
      refine fine_act settings (h.right.later hclock) ?_ ?_
      · rintro trader bounded rfl
        exact htold
      · rintro id reply rfl
        exact htold
    refine ⟨hfine.right, fun value hvalue => ?_⟩
    rcases List.mem_append.mp hvalue with hearlier | hnow
    · exact (h.had value hearlier).later hclock
    · exact hfine.had value hnow

/-- Whatever refreshes, timer, background walks, failures, cancellations and the account's own changes
come in between, every balance written as available is the one the ledger had right before its
checkpoint, as the ledger stands at the end of the run. -/
theorem written_balance_right (settings : Settings) (account : Account) (happenings : List Happening)
    (hhonest : (World.machine settings).Always World.Honest { account } happenings)
    (value : CheckpointValue)
    (hwrote : .wrote value ∈ (World.machine settings).told { account } happenings)
    (havailable : value.status = .available) :
    ∃ t, value.checkpointMs = some t ∧ value.balance =
      some (((World.machine settings).after { account } happenings).account.ledger.balanceBefore t) := by
  have hstart : World.Good [] { account } :=
    ⟨fun id task htask => (by cases htask), fun value hvalue => (by cases hvalue)⟩
  have hend := Machine.told_invariant_of_always
    (fun told w happening hgood hhonest => World.good_step settings hgood hhonest) hstart hhonest
  obtain ⟨t, hcheckpoint, -, hbalance⟩ := hend.had value hwrote havailable
  exact ⟨t, hcheckpoint, hbalance⟩

/-! ## An account that goes on while it is read -/

/-- The account of items that each state their change. -/
def Account.ofBooked (ledger : Ledger) (booked : List (Item × BalanceChange))
    (hledger : booked.map Prod.snd = ledger.changes)
    (hkeys : (booked.map fun pair => pair.1.key).Nodup)
    (hstates : ∀ pair ∈ booked, pair.1.change? = .ok (some pair.2) ∧
      pair.1.key.1 = pair.2.deposit.isSome) : Account where
  ledger
  items := booked.map Prod.fst
  keys := by rwa [List.map_map]
  stated item hitem found hfound := by
    obtain ⟨pair, hpair, rfl⟩ := List.mem_map.mp hitem
    obtain rfl := Option.some.inj (Except.ok.inj ((hstates pair hpair).1.symm.trans hfound))
    exact ⟨pair.2, hledger ▸ List.mem_map_of_mem hpair, .inl rfl⟩
  listed change hchange := by
    obtain ⟨pair, hpair, rfl⟩ := List.mem_map.mp (hledger ▸ hchange)
    obtain ⟨hstated, hkind⟩ := hstates pair hpair
    refine ⟨pair.1, List.mem_map_of_mem hpair, hkind, (tsMs_of_change? hstated).symm,
      fun found hfound => ⟨pair.2, ?_, .inl rfl⟩⟩
    exact (Except.ok.inj (hstated.symm.trans hfound)).symm

/-- A deposit of 500. -/
def deposited : ProtoOADepositWithdraw where
  operationType := .balanceDeposit
  balanceHistoryId := 7
  balance := 500
  delta := 500
  changeBalanceTimestamp := 2000
  balanceVersion? := some 1
  moneyDigits? := some 2

/-- A deal that closed a position with a loss. -/
def closedAt (id executionTimestamp loss balance version : ℤ) : ProtoOADeal where
  dealId := id
  orderId := id
  positionId := 3
  filledVolume := 100
  symbolId := 1
  executionTimestamp
  tradeSide := .sell
  closePositionDetail? := some
    { grossProfit := -loss, swap := 0, commission := 0, balance, balanceVersion? := some version
      moneyDigits? := some 2 }

/-- A deposit, and a loss after midnight. -/
def oneLoss : Account :=
  .ofBooked
    { changes := [⟨2000, 1, 500, some 500, 2, true, some true⟩,
        ⟨86400500, 2, 450, some (-50), 2, false, none⟩]
      registrationMs := 1000
      consecutive := by decide
      ordered := by decide
      addsUp := by exact ⟨⟨500, rfl, rfl⟩, ⟨-50, rfl, rfl⟩, trivial⟩
      registered := by decide }
    [(.cashFlow deposited, ⟨2000, 1, 500, some 500, 2, true, some true⟩),
      (.deal (closedAt 8 86400500 50 450 2), ⟨86400500, 2, 450, some (-50), 2, false, none⟩)]
    rfl (by decide) (by decide)

/-- Another loss a second later. -/
def twoLosses : Account :=
  .ofBooked
    { changes := [⟨2000, 1, 500, some 500, 2, true, some true⟩,
        ⟨86400500, 2, 450, some (-50), 2, false, none⟩,
        ⟨86401500, 3, 440, some (-10), 2, false, none⟩]
      registrationMs := 1000
      consecutive := by decide
      ordered := by decide
      addsUp := by exact ⟨⟨500, rfl, rfl⟩, ⟨-50, rfl, rfl⟩, ⟨-10, rfl, rfl⟩, trivial⟩
      registered := by decide }
    [(.cashFlow deposited, ⟨2000, 1, 500, some 500, 2, true, some true⟩),
      (.deal (closedAt 8 86400500 50 450 2), ⟨86400500, 2, 450, some (-50), 2, false, none⟩),
      (.deal (closedAt 9 86401500 10 440 3), ⟨86401500, 3, 440, some (-10), 2, false, none⟩)]
    rfl (by decide) (by decide)

/-- The account with one loss has its deposit and that loss. -/
theorem oneLoss_items {item : Item} (h : item ∈ oneLoss.items) :
    item = .cashFlow deposited ∨ item = .deal (closedAt 8 86400500 50 450 2) := by
  simpa [oneLoss, Account.ofBooked] using h

/-- The account with a second loss has these three. -/
theorem twoLosses_items {item : Item} (h : item ∈ twoLosses.items) :
    item = .cashFlow deposited ∨ item = .deal (closedAt 8 86400500 50 450 2) ∨
      item = .deal (closedAt 9 86401500 10 440 3) := by
  simpa [twoLosses, Account.ofBooked] using h

/-- An account that does nothing has gone on. -/
theorem Account.Grows.refl (account : Account) (clockMs : ℤ) : account.Grows clockMs account :=
  ⟨rfl, ⟨[], by simp⟩, ⟨[], by simp⟩⟩

/-- The second loss comes after the clock. -/
theorem oneLoss_grows {clockMs : ℤ} (h : clockMs ≤ 86401500) : oneLoss.Grows clockMs twoLosses where
  registered := rfl
  changes := ⟨[⟨86401500, 3, 440, some (-10), 2, false, none⟩], rfl, by simpa using h⟩
  items := ⟨[.deal (closedAt 9 86401500 10 440 3)], rfl, by simpa [Item.tsMs, closedAt] using h⟩

/-- The request a task of the world waits for. -/
def World.asked (w : World) (id : ℕ) : Option Request :=
  (w.keeper.tasks.get? id).bind fun task => task.settle.bind Settle.request

/-- A reply of the account as it is may be told. -/
theorem World.told_of_asked {w : World} {id : ℕ} {reply : Reply} {request : Request}
    (hasked : w.asked id = some request) (h : w.account.Answers request reply) :
    w.Told (.wakes id reply) := by
  intro task htask settle hsettle other hother
  have hsame : w.asked id = some other := by
    rw [World.asked, htask, Option.bind_some, Option.mem_def.mp hsettle]
    exact hother
  exact Option.some.inj (hasked.symm.trans hsame) ▸ h

/-- A refresh a second after midnight reads a week back. The second loss happens between its deal list
and its cash flows, and it is found once the trader has moved past the first. -/
def overtaken : List Happening := [
  .acts ⟨86401000, true⟩ (.refresh ⟨450, some 2, some 1000, some 2, 1⟩ true),
  .acts ⟨86401100, true⟩ (.wakes 0 (.deals [closedAt 8 86400500 50 450 2] true)),
  .books twoLosses,
  .acts ⟨86401700, true⟩ (.wakes 0 (.cashFlows [deposited])),
  .acts ⟨86401800, true⟩ (.wakes 0 (.cashFlows [deposited])),
  .acts ⟨86401900, true⟩ (.wakes 0 (.trader ⟨440, some 3, some 1000, some 2, 1⟩)),
  .acts ⟨86402000, true⟩ (.wakes 0 (.deals [closedAt 9 86401500 10 440 3] true)),
  .acts ⟨86402100, true⟩ (.wakes 0 (.cashFlows []))]

/-- The account answers truly throughout. -/
theorem overtaken_honest :
    (World.machine midnight).Always World.Honest { account := oneLoss } overtaken := by
  -- the moments go forward; each answer below is that of the account as it is by then
  refine And.intro (And.intro (by decide) ?_) (And.intro (And.intro (by decide) ?_)
    (And.intro ?_ (And.intro (And.intro (by decide) ?_) (And.intro (And.intro (by decide) ?_)
    (And.intro (And.intro (by decide) ?_) (And.intro (And.intro (by decide) ?_)
    (And.intro (And.intro (by decide) ?_) trivial)))))))
  · exact fun registered hgiven => (Option.some.inj hgiven).symm
  · refine @World.told_of_asked _ 0 _ (.deals ⟨0, 86401000⟩) (by decide) ⟨?_, ?_⟩
    · intro deal hdeal
      obtain rfl := List.mem_singleton.mp hdeal
      exact ⟨by decide, by decide⟩
    · intro deal hdeal _ _
      rcases oneLoss_items hdeal with h | h
      · cases h
      · exact List.mem_singleton.mpr (Item.deal.inj h)
  · exact oneLoss_grows (by decide)
  · refine @World.told_of_asked _ 0 _ (.cashFlows ⟨0, 86401000⟩) (by decide)
      ⟨oneLoss, oneLoss_grows (by decide), fun operation => ⟨fun hlisted => ?_, fun hthere => ?_⟩⟩
    · obtain rfl := List.mem_singleton.mp hlisted
      exact ⟨by decide, by decide⟩
    · rcases oneLoss_items hthere.1 with h | h
      · exact List.mem_singleton.mpr (Item.cashFlow.inj h)
      · cases h
  · refine @World.told_of_asked _ 0 _ (.cashFlows ⟨1000, 86401700⟩) (by decide)
      ⟨twoLosses, .refl _ _, fun operation => ⟨fun hlisted => ?_, fun hthere => ?_⟩⟩
    · obtain rfl := List.mem_singleton.mp hlisted
      exact ⟨by decide, by decide⟩
    · rcases twoLosses_items hthere.1 with h | h | h
      · exact List.mem_singleton.mpr (Item.cashFlow.inj h)
      · cases h
      · cases h
  · refine @World.told_of_asked _ 0 _ .trader (by decide) ?_
    exact fun registered hgiven => (Option.some.inj hgiven).symm
  · refine @World.told_of_asked _ 0 _ (.deals ⟨86401000, 86401900⟩) (by decide) ⟨?_, ?_⟩
    · intro deal hdeal
      obtain rfl := List.mem_singleton.mp hdeal
      exact ⟨by decide, by decide⟩
    · intro deal hdeal hfrom _
      rcases twoLosses_items hdeal with h | h | h
      · cases h
      · obtain rfl := Item.deal.inj h
        exact absurd hfrom (by decide)
      · exact List.mem_singleton.mpr (Item.deal.inj h)
  · refine @World.told_of_asked _ 0 _ (.cashFlows ⟨86401000, 86401900⟩) (by decide)
      ⟨twoLosses, .refl _ _, fun operation => ⟨fun hlisted => ?_, fun hthere => ?_⟩⟩
    · exact absurd hlisted List.not_mem_nil
    · rcases twoLosses_items hthere.1 with h | h | h
      · obtain rfl := Item.cashFlow.inj h
        exact absurd hthere.2 (by decide)
      · cases h
      · cases h

/-- The balance written is the one before midnight, whatever was lost after it. -/
theorem written_balance_right_overtaken : ∃ value,
    .wrote value ∈ (World.machine midnight).told { account := oneLoss } overtaken ∧
    value.status = .available ∧ ∃ t, value.checkpointMs = some t ∧ value.balance =
      some (((World.machine midnight).after { account := oneLoss } overtaken).account.ledger.balanceBefore
        t) :=
  ⟨⟨.available, some 86400000, some 500, none, some 500, some 2⟩, by decide, rfl,
    written_balance_right midnight oneLoss overtaken overtaken_honest
      ⟨.available, some 86400000, some 500, none, some 500, some 2⟩ (by decide) rfl⟩

end BalanceHistory

end NautilusCtrader
