import NautilusCtrader.Balance.Walks
import NautilusCtrader.Checkpoints
import NautilusCtrader.Common.Machine

/-!
# The keeper of the balance checkpoint

Refreshes, the timer's walks and the walks handed over to the background run at the same time, each
for its own checkpoint. They share the walk to the first deposit, which takes turns at a lock, and the
key they write. What happens between two awaits of a task is one step.
-/

namespace NautilusCtrader

open Common

namespace BalanceHistory

/-- The settings the keeper is made with. -/
structure Settings where
  hour : Option ℤ
  zone : Zone

/-- What a task awaits. -/
inductive Stage
  /-- Its turn to begin, in the background. -/
  | handedOver
  | firstTrader
  | backDeals
  | backCashFlows (deals : List ProtoOADeal)
  /-- The lock of the walk to the first deposit. -/
  | depositTurn
  /-- The cash flows from `startMs` to `endMs`, asked at `nowMs`; `left` windows are left to the task
  after these. -/
  | depositCashFlows (startMs endMs nowMs : ℤ) (left : ℕ)
  | latestTrader
  /-- A window of the history since the walk began, with those after it. -/
  | topDeals (latest : ProtoOATrader) (nowMs : ℤ) (window : History.Window) (rest : List History.Window)
  | topCashFlows (latest : ProtoOATrader) (nowMs : ℤ) (window : History.Window)
      (rest : List History.Window) (deals : List ProtoOADeal)
deriving DecidableEq

/-- A `_settle` that is going on. `bounded` is that of the `_run` that waits for it. -/
structure Settle where
  walk : Walk
  trader : Option ProtoOATrader
  limit : ℕ
  bounded : Bool
  stage : Stage
deriving DecidableEq

/-- A task. One of the timer's that has not begun has no walk yet; a cancelled one ends when it next
runs. -/
structure Task where
  settle : Option Settle
  cancelled : Bool := false
deriving DecidableEq

/-- `BalanceCheckpoint`. -/
structure BalanceCheckpoint where
  stopped : Bool := false
  deposit : Option BalanceChange := none
  depositFromMs : Option ℤ := none
  depositWindows : ℕ := 0
  depositCaughtUp : Bool := false
  writtenMs : Option ℤ := none
  /-- The deposit lock: the task that has it, and those that wait for it, first come first. -/
  holder : Option ℕ := none
  waiting : List ℕ := []
  /-- The checkpoint the timer is armed for. -/
  timer : Option ℤ := none
  /-- `_task`, by its number. -/
  task : Option ℕ := none
  tasks : Dict ℕ Task := Dict.empty
  begun : ℕ := 0
deriving DecidableEq

/-- What the code finds while it runs from one await to the next: the clock, which counts from 1970, and
whether a write to the key succeeds. -/
structure Moment where
  nowMs : ℕ
  writes : Bool := true
deriving DecidableEq, Repr

/-- How a request fails. -/
inductive Failure
  | connectionLost | failed
deriving DecidableEq, Repr

/-- What a task is woken with. -/
inductive Reply
  /-- It begins, or its turn at the lock has come. -/
  | goes
  | fails (failure : Failure)
  | trader (trader : ProtoOATrader)
  | deals (deals : List ProtoOADeal) (complete : Bool)
  | cashFlows (operations : List ProtoOADepositWithdraw)
deriving DecidableEq

/-- A request of a task. -/
inductive Request
  | trader
  | deals (window : History.Window)
  | cashFlows (window : History.Window)
deriving DecidableEq, Repr

inductive Record
  | wrote (value : CheckpointValue)
  | asked (id : ℕ) (request : Request)
  /-- A task is made in the background. -/
  | started (id : ℕ)
  | armed (tMs delayMs : ℤ)
  /-- The timer fires for the checkpoint it is armed for. -/
  | fired (tMs : ℤ)
deriving DecidableEq, Repr

inductive Action
  | refresh (trader : ProtoOATrader) (bounded : Bool)
  | schedule
  | fires
  | stop
  /-- A task is cancelled from outside. -/
  | cancel (id : ℕ)
  | wakes (id : ℕ) (reply : Reply)
deriving DecidableEq

namespace BalanceCheckpoint

variable (b : BalanceCheckpoint)

/-! ## Tasks and the lock -/

/-- A task is to end when it next runs. -/
def cancel (id : ℕ) : BalanceCheckpoint :=
  match b.tasks.get? id with
  | none => b
  | some task => { b with tasks := b.tasks.set id { task with cancelled := true } }

/-- `_cancel_task`. -/
def cancelTask : BalanceCheckpoint :=
  match b.task with
  | none => b
  | some id => { b.cancel id with task := none }

/-- `_start_task`. -/
def startTask (settle : Option Settle) : BalanceCheckpoint :=
  let b := b.cancelTask
  { b with task := some b.begun, tasks := b.tasks.set b.begun { settle }, begun := b.begun + 1 }

/-- A task is out of the lock: it passes on to the one that waits longest. -/
def letGo (id : ℕ) : BalanceCheckpoint :=
  if b.holder = some id then { b with holder := b.waiting.head?, waiting := b.waiting.tail }
  else { b with waiting := b.waiting.erase id }

/-- A task is over. -/
def ended (id : ℕ) : BalanceCheckpoint := { b with tasks := b.tasks.erase id }

/-- A task goes on to await something. -/
def awaits (id : ℕ) (settle : Settle) (stage : Stage) : BalanceCheckpoint :=
  { b with tasks := b.tasks.set id { settle := some { settle with stage } } }

/-- `_deposit_unfinished`: whether the walk to the first deposit has more to read now. -/
def depositUnfinished (registrationMs : Option ℤ) (nowMs : ℤ) : Bool :=
  match registrationMs with
  | none => false
  | some registered =>
    b.deposit.isNone && !b.depositCaughtUp && decide (b.depositWindows < maxWindows) &&
      decide (b.depositFromMs.getD registered < nowMs)

/-- `_unfinished`. -/
def unfinished (walk : Walk) (trader : ProtoOATrader) (nowMs : ℤ) : Bool :=
  walk.failure.isNone && (!walk.settled || b.depositUnfinished (registration trader) nowMs)

end BalanceCheckpoint

namespace Settle

variable (settle : Settle)

def registrationMs : Option ℤ := settle.trader.bind registration

def digits : Option ℕ := settle.trader.bind ProtoOATrader.moneyDigits?

/-- The trader read first, for what `_walk_back` reads of it. -/
def first : ProtoOATrader := settle.trader.getD { balance := 0 }

end Settle

/-! ## A task from one await to the next -/

namespace BalanceCheckpoint

variable (settings : Settings) (moment : Moment) (b : BalanceCheckpoint) (id : ℕ) (settle : Settle)

/-- The end of `_settle`, with that of a `_run` that waits for it: the key is written, and an unfinished
bounded walk goes on in the background. -/
def close (value : CheckpointValue) : BalanceCheckpoint × List Record :=
  let b := b.ended id
  if b.writtenMs.any (settle.walk.tMs < ·) then (b, [])
  else if b.stopped || !moment.writes then (b, [])
  else
    let told := [.wrote (withDeposit b.deposit value settle.registrationMs)]
    let b := { b with writtenMs := some settle.walk.tMs }
    match settle.trader with
    | none => (b, told)
    | some trader =>
      if settle.bounded && b.unfinished settle.walk trader moment.nowMs then
        (b.startTask (some
          { settle with limit := maxWindows, bounded := false, stage := .handedOver }),
          told ++ [.started b.begun])
      else (b, told)

/-- A request of the task failed, or the value could not be made. -/
def fail (failure : Failure) : BalanceCheckpoint × List Record :=
  match failure with
  | .connectionLost => ((b.letGo id).ended id, [])
  | .failed =>
    (b.letGo id).close moment id
      { settle with walk := { settle.walk with failure := some .requestFailed } }
      (settle.walk.requestFailed settle.digits)

/-- The value is made and written. -/
def finish (latest : ProtoOATrader) : BalanceCheckpoint × List Record :=
  match settle.walk.value latest with
  | none => b.fail moment id settle .failed
  | some value => b.close moment id settle value

/-- The loop of `_top_up` over the windows left. -/
def topNext (latest : ProtoOATrader) (nowMs : ℤ) :
    List History.Window → BalanceCheckpoint × List Record
  | [] => b.finish moment id { settle with walk := { settle.walk with upperMs := nowMs } } latest
  | window :: rest =>
    (b.awaits id settle (.topDeals latest nowMs window rest), [.asked id (.deals window)])

/-- `_top_up`. -/
def topUp (latest : ProtoOATrader) : BalanceCheckpoint × List Record :=
  if settle.walk.toppedUp latest then
    b.topNext moment id settle latest moment.nowMs (weeklyWindows settle.walk.upperMs moment.nowMs)
  else b.finish moment id settle latest

/-- The task is out of the walk to the first deposit, and reads the trader again. -/
def leaveDeposit : BalanceCheckpoint × List Record :=
  ((b.letGo id).awaits id settle .latestTrader, [.asked id .trader])

/-- The loop of `_walk_deposit_locked`, for the windows left to the task. -/
def depositNext : ℕ → BalanceCheckpoint × List Record
  | 0 => b.leaveDeposit id settle
  | left + 1 =>
    match b.depositFromMs with
    | none => b.leaveDeposit id settle
    | some startMs =>
      if b.depositUnfinished settle.registrationMs moment.nowMs then
        let endMs := min (startMs + weekMs) moment.nowMs
        (b.awaits id settle (.depositCashFlows startMs endMs moment.nowMs left),
          [.asked id (.cashFlows ⟨startMs, endMs⟩)])
      else b.leaveDeposit id settle

/-- `_walk_deposit_locked`. -/
def walkDepositLocked : BalanceCheckpoint × List Record :=
  if b.depositUnfinished settle.registrationMs moment.nowMs then
    ({ b with depositFromMs := b.depositFromMs.or settle.registrationMs }).depositNext moment id settle
      settle.limit
  else b.leaveDeposit id settle

/-- The rest of a turn of `_walk_deposit_locked` behind its cash flows. -/
def depositRead (endMs nowMs : ℤ) (left : ℕ) (operations : List ProtoOADepositWithdraw) :
    BalanceCheckpoint × List Record :=
  let b := { b with depositFromMs := some endMs }
  match operations.mapM changeOfCashFlow with
  | .error _ => ({ b with depositWindows := maxWindows }).leaveDeposit id settle
  | .ok changes =>
    let b := if endMs < nowMs then { b with depositWindows := b.depositWindows + 1 } else b
    match firstDeposit changes with
    | some found => ({ b with deposit := some found }).leaveDeposit id settle
    | none =>
      if endMs = nowMs then ({ b with depositCaughtUp := true }).leaveDeposit id settle
      else b.depositNext moment id settle left

/-- `_walk_deposit`. -/
def walkDeposit : BalanceCheckpoint × List Record :=
  if b.holder.isNone && b.waiting.isEmpty then
    ({ b with holder := some id }).walkDepositLocked moment id settle
  else ({ b with waiting := b.waiting ++ [id] }.awaits id settle .depositTurn, [])

/-- The loop of `_walk_back`. -/
def walkBack : BalanceCheckpoint × List Record :=
  if settle.walk.goesBack settle.limit then
    (b.awaits id settle .backDeals, [.asked id (.deals settle.walk.windowBack)])
  else b.walkDeposit moment id settle

/-- `_walk_back` goes on behind a window read. -/
def wentBack (walk : Walk) : BalanceCheckpoint × List Record :=
  b.walkBack moment id
    { settle with walk := walk.wentBack settle.walk.windowBack.fromMs settle.first }

/-- `_settle`. -/
def settles : BalanceCheckpoint × List Record :=
  match settle.trader with
  | none => (b.awaits id settle .firstTrader, [.asked id .trader])
  | some _ => b.walkBack moment id settle

/-- `_run`, as the task `id`. -/
def run (trader : Option ProtoOATrader) (bounded : Bool) : BalanceCheckpoint × List Record :=
  let b := { b with depositCaughtUp := false }
  match settings.hour with
  | none => (b.ended id, [])
  | some hour =>
    match Checkpoints.checkpointAt (.aware (moment.nowMs * 1000)) hour settings.zone with
    | .error _ => (b.ended id, [])
    | .ok t =>
      b.settles moment id
        { walk := { tMs := t * 1000, upperMs := moment.nowMs, coveredFromMs := moment.nowMs }
          trader
          limit := if bounded then startWindows else maxWindows
          bounded
          stage := .handedOver }

/-- A task that waits is woken. -/
def resume (reply : Reply) : BalanceCheckpoint × List Record :=
  match settle.stage, reply with
  | .handedOver, .goes => b.settles moment id settle
  | .depositTurn, .goes =>
    if b.holder = some id then b.walkDepositLocked moment id settle else (b, [])
  | .handedOver, _ | .depositTurn, _ | _, .goes => (b, [])
  | _, .fails failure => b.fail moment id settle failure
  | .firstTrader, .trader trader => b.walkBack moment id { settle with trader := some trader }
  | .backDeals, .deals deals complete =>
    if complete then
      (b.awaits id settle (.backCashFlows deals),
        [.asked id (.cashFlows settle.walk.windowBack)])
    else b.wentBack moment id settle settle.walk.incomplete
  | .backCashFlows deals, .cashFlows operations =>
    b.wentBack moment id settle (settle.walk.read deals operations)
  | .depositCashFlows _ endMs nowMs left, .cashFlows operations =>
    b.depositRead moment id settle endMs nowMs left operations
  | .latestTrader, .trader trader => b.topUp moment id settle (newer settle.first trader)
  | .topDeals latest nowMs window rest, .deals deals complete =>
    if complete then
      (b.awaits id settle (.topCashFlows latest nowMs window rest deals),
        [.asked id (.cashFlows window)])
    else b.topNext moment id { settle with walk := settle.walk.incomplete } latest nowMs rest
  | .topCashFlows latest nowMs _ rest deals, .cashFlows operations =>
    b.topNext moment id { settle with walk := settle.walk.read deals operations } latest nowMs rest
  | _, _ => (b, [])

/-- A task runs on. -/
def wakes (reply : Reply) : BalanceCheckpoint × List Record :=
  match b.tasks.get? id with
  | none => (b, [])
  | some task =>
    if task.cancelled then ((b.letGo id).ended id, [])
    else
      match task.settle with
      | none => if reply = .goes then b.run settings moment id none false else (b, [])
      | some settle => b.resume moment id settle reply

/-! ## The keeper's own methods -/

/-- `refresh`. -/
def refresh (trader : ProtoOATrader) (bounded : Bool) : BalanceCheckpoint × List Record :=
  let b := b.cancelTask
  if settings.hour.isNone then
    if b.stopped || !moment.writes then (b, [])
    else (b, [.wrote ⟨.off, none, none, none, none, none⟩])
  else ({ b with begun := b.begun + 1 }).run settings moment b.begun (some trader) bounded

/-- `_arm`: the timer for the first checkpoint after `afterMs`; `none` if it raises. -/
def arm (afterMs : ℤ) : Option (BalanceCheckpoint × List Record) :=
  settings.hour.bind fun hour =>
    match Checkpoints.nextCheckpoint (.aware (afterMs * 1000)) hour settings.zone with
    | .error _ => none
    | .ok t =>
      some ({ b with timer := some (t * 1000) },
        [.armed (t * 1000) (max 0 (t * 1000 + graceMs - moment.nowMs))])

/-- `schedule`. -/
def schedule : BalanceCheckpoint × List Record :=
  if settings.hour.isSome && !b.stopped then
    (b.arm settings moment (moment.nowMs - graceMs)).getD ({ b with timer := none }, [])
  else (b, [])

/-- `_fire`. -/
def fires : BalanceCheckpoint × List Record :=
  match b.timer with
  | none => (b, [])
  | some tMs =>
    -- Not before the checkpoint just due, though the wall clock may be behind the loop's.
    match b.arm settings moment (max tMs (moment.nowMs - graceMs)) with
    | none => ({ b with timer := none }, [.fired tMs])
    | some (b, told) => (b.startTask none, .fired tMs :: told ++ [.started b.begun])

/-- `stop`. -/
def stop : BalanceCheckpoint := ({ b with stopped := true, timer := none } : BalanceCheckpoint).cancelTask

def act : Action → BalanceCheckpoint × List Record
  | .refresh trader bounded => b.refresh settings moment trader bounded
  | .schedule => b.schedule settings moment
  | .fires => b.fires settings moment
  | .stop => (b.stop, [])
  | .cancel id => (b.cancel id, [])
  | .wakes id reply => b.wakes settings moment id reply

/-- The keeper as a machine. -/
def machine : Machine BalanceCheckpoint (Moment × Action) Record where
  step b i := b.act settings i.1 i.2

end BalanceCheckpoint

/-- A clock at UTC. -/
def utc : Zone := Zone.oneChange 0 0 0 (by decide) (by decide) (by decide)

/-- A checkpoint at midnight. -/
def midnight : Settings := ⟨some 0, utc⟩

end BalanceHistory

end NautilusCtrader
