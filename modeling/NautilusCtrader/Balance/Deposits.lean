import NautilusCtrader.Balance.Written

/-!
# The first deposit that is written

The walk to the first deposit goes forward from the registration, a window after the other, and tasks
take turns at it: only the task that has the lock reads on. Behind where it stands there is no deposit
on a zero balance, so the one it finds is the account's first.
-/

namespace NautilusCtrader

open Common

namespace BalanceHistory

/-! ## The first deposit of a ledger -/

/-- The account's first deposit on a zero balance. -/
structure Ledger.FirstDeposit (ledger : Ledger) (change : BalanceChange) : Prop where
  booked : change ∈ ledger.changes
  onZero : onZero change = true
  first : ∀ other ∈ ledger.changes, BalanceHistory.onZero other = true → change.version ≤ other.version

/-- A deposit on a zero balance is a deposit. -/
theorem deposit_of_onZero {change : BalanceChange} (h : onZero change = true) :
    change.deposit = some true := by
  unfold onZero at h
  rw [Bool.and_eq_true, decide_eq_true_eq] at h
  exact h.1

/-- A change of a version before one of the past was there already. -/
theorem Account.Grows.mem_past {past account : Account} {clockMs : ℤ}
    (h : past.Grows clockMs account) {change other : BalanceChange}
    (hchange : change ∈ past.ledger.changes) (hother : other ∈ account.ledger.changes)
    (hversion : other.version < change.version) : other ∈ past.ledger.changes := by
  obtain ⟨more, heq, -⟩ := h.changes
  have hincrease := account.ledger.versions_increase
  rw [heq] at hother hincrease
  obtain ⟨-, -, hcross⟩ := List.pairwise_append.mp hincrease
  rcases List.mem_append.mp hother with hpast | hlater
  · exact hpast
  · have := hcross change hchange other hlater
    omega

/-- What the account adds later is not before its first deposit. -/
theorem Ledger.FirstDeposit.grows {account later : Account} {clockMs : ℤ} {change : BalanceChange}
    (h : account.ledger.FirstDeposit change) (hgrows : account.Grows clockMs later) :
    later.ledger.FirstDeposit change where
  booked := hgrows.mem_changes h.booked
  onZero := h.onZero
  first other hother honZero := by
    by_contra hearlier
    have hpast := hgrows.mem_past h.booked hother (not_le.mp hearlier)
    exact hearlier (h.first other hpast honZero)

/-- The first deposit of a list is its deposit on a zero balance of the lowest version. -/
theorem firstDeposit_eq_some {changes : List BalanceChange} {found : BalanceChange}
    (h : firstDeposit changes = some found) :
    found ∈ changes ∧ onZero found = true ∧
      ∀ other ∈ changes, onZero other = true → found.version ≤ other.version := by
  have hmem := List.mem_filter.mp (List.argmin_mem h)
  refine ⟨hmem.1, hmem.2, fun other hother honZero => ?_⟩
  exact List.le_of_mem_argmin (List.mem_filter.mpr ⟨hother, honZero⟩) h

/-- A list without one has no deposit on a zero balance. -/
theorem firstDeposit_eq_none {changes : List BalanceChange} (h : firstDeposit changes = none) :
    ∀ other ∈ changes, onZero other ≠ true := by
  have hempty := List.argmin_eq_none.mp h
  exact List.filter_eq_nil_iff.mp hempty

/-! ## The cash flows of a window -/

/-- A deposit of the account in a listed window, there when it was listed, is among the changes read. -/
theorem mem_of_listed {past : Account} {window : History.Window}
    {operations : List ProtoOADepositWithdraw} {changes : List BalanceChange}
    (hlisted : ∀ operation, operation ∈ operations ↔
      .cashFlow operation ∈ past.items ∧ window.Holds operation.changeBalanceTimestamp)
    (hread : operations.mapM changeOfCashFlow = .ok changes) {change : BalanceChange}
    (hchange : change ∈ past.ledger.changes) (honZero : onZero change = true)
    (hholds : window.Holds change.tsMs) : change ∈ changes := by
  have hdeposit := deposit_of_onZero honZero
  obtain ⟨item, hitem, hkind, htime, hstates⟩ := past.listed change hchange
  rw [hdeposit] at hkind
  cases item with
  | deal deal => cases hkind
  | cashFlow operation =>
    have hoperation : operation ∈ operations := by
      refine (hlisted operation).mpr ⟨hitem, ?_⟩
      have htime : operation.changeBalanceTimestamp = change.tsMs := htime
      rwa [htime]
    obtain ⟨found, hfound, hmade⟩ := made_of_mapM hread operation hoperation
    obtain ⟨statement, heq, hstatement⟩ := hstates (some found) (by
      show (changeOfCashFlow operation).map some = _
      rw [hmade]
      rfl)
    obtain rfl := Option.some.inj heq
    have hsame := hstatement.eq_of_deposit (hstatement.deposit.trans hdeposit)
    exact hsame ▸ hfound

/-- What is found in a window with no deposit behind it is the account's first. -/
theorem first_of_found {account : Account} {window : History.Window}
    {operations : List ProtoOADepositWithdraw} {changes : List BalanceChange}
    (hlist : account.ListsCashFlows window operations)
    (hread : operations.mapM changeOfCashFlow = .ok changes)
    (hbehind : ∀ change ∈ account.ledger.changes, onZero change = true →
      window.fromMs ≤ change.tsMs)
    {found : BalanceChange} (hfound : firstDeposit changes = some found) :
    account.ledger.FirstDeposit found := by
  obtain ⟨past, hpast, hlisted⟩ := hlist
  obtain ⟨hmem, honZero, hleast⟩ := firstDeposit_eq_some hfound
  obtain ⟨operation, hoperation, hmade⟩ := exists_of_mapM hread found hmem
  obtain ⟨hitem, hholds⟩ := (hlisted operation).mp hoperation
  have hchange : Item.change? (.cashFlow operation) = .ok (some found) := by
    show (changeOfCashFlow operation).map some = _
    rw [hmade]
    rfl
  obtain ⟨change, hbooked, hstates⟩ := past.stated _ hitem found hchange
  obtain rfl := hstates.eq_of_deposit (deposit_of_onZero honZero)
  have htime : found.tsMs = operation.changeBalanceTimestamp := tsMs_of_change? hchange
  refine ⟨hpast.mem_changes hbooked, honZero, fun other hother hotherZero => ?_⟩
  by_contra hearlier
  -- An earlier deposit was in the account when the window was listed, and lies in it.
  have hthere := hpast.mem_past hbooked hother (not_le.mp hearlier)
  have hbefore := past.ledger.tsMs_le hthere hbooked (not_le.mp hearlier)
  have hin : window.Holds other.tsMs := by
    refine ⟨hbehind other hother hotherZero, ?_⟩
    have := hholds.2
    omega
  exact hearlier (hleast other (mem_of_listed hlisted hread hthere hotherZero hin) hotherZero)

/-- A window without a deposit on zero moves the walk to its end. -/
theorem behind_of_none {account : Account} {window : History.Window}
    {operations : List ProtoOADepositWithdraw} {changes : List BalanceChange}
    (hlist : account.ListsCashFlows window operations)
    (hread : operations.mapM changeOfCashFlow = .ok changes)
    (hbehind : ∀ change ∈ account.ledger.changes, onZero change = true →
      window.fromMs ≤ change.tsMs)
    (hnone : firstDeposit changes = none) :
    ∀ change ∈ account.ledger.changes, onZero change = true → window.toMs ≤ change.tsMs := by
  intro change hchange honZero
  by_contra hearly
  obtain ⟨past, hpast, hlisted⟩ := hlist
  have hthere : change ∈ past.ledger.changes := by
    rcases hpast.new_change hchange with hthere | hlate
    · exact hthere
    · exact absurd hlate hearly
  have hin : window.Holds change.tsMs :=
    ⟨hbehind change hchange honZero, le_of_lt (not_le.mp hearly)⟩
  exact firstDeposit_eq_none hnone change (mem_of_listed hlisted hread hthere honZero hin) honZero

/-! ## What the keeper keeps of the walk -/

/-- The trader a task read gives the account's registration. -/
def Settle.Knows (account : Account) (settle : Settle) : Prop :=
  ∀ trader ∈ settle.trader, trader.registrationTimestamp? = some account.ledger.registrationMs

/-- A task may read cash flows only from where the shared walk stands, with the lock, and while nothing
was found. -/
def Stage.Turn (b : BalanceCheckpoint) (clockMs : ℤ) (id : ℕ) : Stage → Prop
  | .depositCashFlows startMs endMs _ _ => b.holder = some id ∧ b.depositFromMs = some startMs ∧
      endMs ≤ clockMs ∧ b.deposit = none ∧ b.depositWindows < maxWindows
  | _ => True

/-- A task that is past the first trader has read one. -/
def Settle.HasTrader (settle : Settle) : Prop :=
  settle.stage ≠ .firstTrader → settle.trader.isSome = true

/-- What the shared walk found is the first deposit, and unless it was given up there is none behind it.
The tasks but the one that runs wait in order. -/
structure Searched (account : Account) (clockMs : ℤ) (running : Option ℕ) (b : BalanceCheckpoint) :
    Prop where
  found : ∀ change, b.deposit = some change → account.ledger.FirstDeposit change
  behind : b.deposit = none → b.depositWindows < maxWindows → ∀ fromMs, b.depositFromMs = some fromMs →
    fromMs ≤ clockMs ∧
      ∀ change ∈ account.ledger.changes, onZero change = true → fromMs ≤ change.tsMs
  waits : ∀ id task, b.tasks.get? id = some task → running ≠ some id → ∀ settle ∈ task.settle,
    settle.Knows account ∧ settle.HasTrader ∧ settle.stage.Turn b clockMs id

/-- The first deposit a value states is the account's. -/
def Account.First (account : Account) (value : CheckpointValue) : Prop :=
  ∀ amount, value.firstDeposit = some amount →
    ∃ change, account.ledger.FirstDeposit change ∧ change.balance = amount

/-- A step leaves the walk in order and writes the account's first deposit. -/
structure Sought (account : Account) (clockMs : ℤ) (ran : BalanceCheckpoint × List Record) : Prop where
  searched : Searched account clockMs none ran.1
  first : ∀ value, .wrote value ∈ ran.2 → account.First value

variable {account : Account} {clockMs : ℤ} {b : BalanceCheckpoint} {id : ℕ} {settle : Settle}
  {moment : Moment}

namespace Searched

/-- With the lock, the running task is the only one that reads. -/
theorem awaits (h : Searched account clockMs (some id) b) (hknows : settle.Knows account) {stage : Stage}
    (htrader : stage ≠ .firstTrader → settle.trader.isSome = true) (hturn : stage.Turn b clockMs id) :
    Searched account clockMs none (b.awaits id settle stage) where
  found := h.found
  behind := h.behind
  waits other task htask hother waiting hwaiting := by
    rcases Dict.get?_set_eq_some.mp htask with ⟨rfl, rfl⟩ | ⟨hne, hheld⟩
    · obtain rfl := Option.some.inj hwaiting
      exact ⟨hknows, htrader, hturn⟩
    · refine h.waits other task hheld ?_ waiting hwaiting
      exact fun heq => hne (Option.some.inj heq)

/-- The running task ends. -/
theorem ended (h : Searched account clockMs (some id) b) :
    Searched account clockMs none (b.ended id) where
  found := h.found
  behind := h.behind
  waits other task htask hother := by
    obtain ⟨hne, hheld⟩ := Dict.get?_erase_eq_some.mp htask
    exact h.waits other task hheld fun heq => hne (Option.some.inj heq).symm

/-- While the running task has the lock no other one reads, whatever it does to the shared walk. -/
theorem others (h : Searched account clockMs (some id) b) (hholder : b.holder = some id)
    (changed : BalanceCheckpoint) : ∀ other task, b.tasks.get? other = some task → some id ≠ some other →
      ∀ settle ∈ task.settle, settle.Knows account ∧ settle.HasTrader ∧
        settle.stage.Turn changed clockMs other := by
  intro other task htask hother waiting hwaiting
  obtain ⟨hknows, htrader, hturn⟩ := h.waits other task htask hother waiting hwaiting
  refine ⟨hknows, htrader, ?_⟩
  cases hstage : waiting.stage with
  | depositCashFlows startMs endMs nowMs left =>
    rw [hstage] at hturn
    exact absurd (hholder.symm.trans hturn.1) hother
  | _ => trivial

/-- It lets the lock go, and the task that waited longest takes it. -/
theorem letGo (h : Searched account clockMs (some id) b) :
    Searched account clockMs (some id) (b.letGo id) := by
  unfold BalanceCheckpoint.letGo
  split
  · rename_i hholder
    exact ⟨h.found, h.behind, h.others hholder _⟩
  · exact ⟨h.found, h.behind, h.waits⟩

/-- The task that runs need not wait in order. -/
theorem of_none (h : Searched account clockMs none b) (id : ℕ) :
    Searched account clockMs (some id) b where
  found := h.found
  behind := h.behind
  waits other task htask _ := h.waits other task htask (Option.some_ne_none other).symm

/-- A task is cancelled, with the lock if it held it. -/
theorem cancel (h : Searched account clockMs none b) (id : ℕ) :
    Searched account clockMs none (b.cancel id) := by
  unfold BalanceCheckpoint.cancel
  split
  · exact h
  · rename_i task htask
    refine ⟨h.found, h.behind, fun other found hfound hother waiting hwaiting => ?_⟩
    rcases Dict.get?_set_eq_some.mp hfound with ⟨rfl, rfl⟩ | ⟨-, hheld⟩
    · exact h.waits id task htask hother waiting hwaiting
    · exact h.waits other found hheld hother waiting hwaiting

/-- The background task is cancelled. -/
theorem cancelTask (h : Searched account clockMs none b) : Searched account clockMs none b.cancelTask := by
  unfold BalanceCheckpoint.cancelTask
  split
  · exact h
  · rename_i id _
    exact ⟨(h.cancel id).found, (h.cancel id).behind, (h.cancel id).waits⟩

/-- The background task begins where the foreground left off. -/
theorem startTask (h : Searched account clockMs none b) {started : Option Settle}
    (hstarted : ∀ settle ∈ started, settle.Knows account ∧ settle.trader.isSome = true ∧
      settle.stage = .handedOver) :
    Searched account clockMs none (b.startTask started) := by
  have hcancelled := h.cancelTask
  refine ⟨hcancelled.found, hcancelled.behind, fun other task htask hother waiting hwaiting => ?_⟩
  rcases Dict.get?_set_eq_some.mp htask with ⟨rfl, rfl⟩ | ⟨-, hheld⟩
  · obtain ⟨hknows, htrader, hstage⟩ := hstarted waiting hwaiting
    exact ⟨hknows, fun _ => htrader, by rw [hstage]; trivial⟩
  · exact hcancelled.waits other task hheld hother waiting hwaiting

end Searched

/-! ## A step writes the first deposit -/

/-- A value takes only what the shared walk found. -/
theorem first_withDeposit {found : Option BalanceChange} {value : CheckpointValue}
    {registrationMs : Option ℤ}
    (hfound : ∀ change, found = some change → account.ledger.FirstDeposit change)
    (hunknown : registrationMs = none → value.firstDeposit = none)
    (hmixed : value.reason = some .mixedScales → value.firstDeposit = none) :
    account.First (withDeposit found value registrationMs) := by
  intro amount hamount
  unfold withDeposit at hamount
  split at hamount
  · rename_i hstands
    rcases Bool.or_eq_true_iff.mp hstands with hnone | hreason
    · rw [hunknown (Option.isNone_iff_eq_none.mp hnone)] at hamount
      cases hamount
    · rw [hmixed (of_decide_eq_true hreason)] at hamount
      cases hamount
  split at hamount
  · cases hamount
  · rename_i deposit
    split at hamount
    · cases hamount
    · exact ⟨deposit, hfound deposit rfl, Option.some.inj hamount⟩

/-- A task without a registration has read no trader. -/
theorem Settle.Knows.registrationMs (h : settle.Knows account) (hnone : settle.registrationMs = none) :
    settle.trader = none := by
  cases htrader : settle.trader with
  | none => rfl
  | some trader =>
    rw [Settle.registrationMs, htrader] at hnone
    have hgiven := h trader htrader
    exact absurd (hgiven.symm.trans hnone) (Option.some_ne_none _)

/-- A task hands its value over. -/
theorem sought_close (h : Searched account clockMs (some id) b) (hknows : settle.Knows account)
    {value : CheckpointValue} (hunknown : settle.trader = none → value.firstDeposit = none)
    (hmixed : value.reason = some .mixedScales → value.firstDeposit = none) :
    Sought account clockMs (b.close moment id settle value) := by
  have hended := h.ended
  unfold BalanceCheckpoint.close
  dsimp only
  split
  · exact ⟨hended, by simp⟩
  split
  · exact ⟨hended, by simp⟩
  have hwrote : ∀ other, .wrote other ∈ [Record.wrote (withDeposit (b.ended id).deposit value
      settle.registrationMs)] → account.First other := by
    intro other hother
    obtain rfl := Record.wrote.inj (List.mem_singleton.mp hother)
    exact first_withDeposit h.found (fun hnone => hunknown (hknows.registrationMs hnone)) hmixed
  have hwritten : Searched account clockMs none
      { b.ended id with writtenMs := some settle.walk.tMs } :=
    ⟨hended.found, hended.behind, hended.waits⟩
  split
  · exact ⟨hwritten, hwrote⟩
  rename_i trader htrader
  split
  · refine ⟨hwritten.startTask fun other hother => ?_, by simpa using hwrote⟩
    obtain rfl := Option.some.inj hother
    exact ⟨hknows, by simp [htrader], rfl⟩
  · exact ⟨hwritten, hwrote⟩

/-- A walk fails: its reason is handed over. -/
theorem sought_fail (h : Searched account clockMs (some id) b) (hknows : settle.Knows account)
    (failure : Failure) : Sought account clockMs (b.fail moment id settle failure) := by
  unfold BalanceCheckpoint.fail
  split
  · exact ⟨h.letGo.ended, by simp⟩
  · refine sought_close h.letGo ?_ (fun _ => rfl) fun _ => rfl
    exact hknows

/-- A value of a walk with mixed scales states no deposit. -/
theorem Walk.value_mixedScales {walk : Walk} {trader : ProtoOATrader} {value : CheckpointValue}
    (h : walk.value trader = some value) (hmixed : value.reason = some .mixedScales) :
    value.firstDeposit = none := by
  rcases Walk.value_cases h with ⟨reason, rfl⟩ | ⟨-, rule, reachedCap, hvalue⟩
  · rfl
  · rcases balanceAt_cases hvalue with rfl | ⟨deposit, balance, reason, hreason, rfl⟩
    · rfl
    · cases reason with
      | none => cases hmixed
      | some reason => exact absurd hmixed hreason

/-- A walk ends with what the newest trader makes of it. -/
theorem sought_finish (h : Searched account clockMs (some id) b) (hknows : settle.Knows account)
    (htrader : settle.trader.isSome = true) (latest : ProtoOATrader) :
    Sought account clockMs (b.finish moment id settle latest) := by
  unfold BalanceCheckpoint.finish
  split
  · exact sought_fail h hknows _
  · rename_i value hvalue
    refine sought_close h hknows (fun hnone => ?_) (Walk.value_mixedScales hvalue)
    rw [hnone] at htrader
    cases htrader

/-- The next window of the latest changes is read, or the walk ends. -/
theorem sought_topNext (h : Searched account clockMs (some id) b) (hknows : settle.Knows account)
    (htrader : settle.trader.isSome = true) (latest : ProtoOATrader) (nowMs : ℤ)
    (windows : List History.Window) :
    Sought account clockMs (b.topNext moment id settle latest nowMs windows) := by
  cases windows with
  | nil =>
    have htopped : Settle.Knows account
        { settle with walk := { settle.walk with upperMs := nowMs } } := hknows
    exact sought_finish h htopped htrader latest
  | cons window rest =>
    exact ⟨h.awaits hknows (fun _ => htrader) trivial, by simp [BalanceCheckpoint.topNext]⟩

/-- The latest changes are read once the way back is done. -/
theorem sought_topUp (h : Searched account clockMs (some id) b) (hknows : settle.Knows account)
    (htrader : settle.trader.isSome = true) (latest : ProtoOATrader) :
    Sought account clockMs (b.topUp moment id settle latest) := by
  unfold BalanceCheckpoint.topUp
  split
  · exact sought_topNext h hknows htrader latest _ _
  · exact sought_finish h hknows htrader latest

/-- A task leaves the deposit walk and goes on. -/
theorem sought_leaveDeposit (h : Searched account clockMs (some id) b) (hknows : settle.Knows account)
    (htrader : settle.trader.isSome = true) :
    Sought account clockMs (b.leaveDeposit id settle) :=
  ⟨h.letGo.awaits hknows (fun _ => htrader) trivial, by simp [BalanceCheckpoint.leaveDeposit]⟩

/-- A deposit walk that is unfinished has windows left between the registration and the clock. -/
theorem depositUnfinished_cases {registrationMs : Option ℤ} {nowMs : ℤ}
    (h : b.depositUnfinished registrationMs nowMs = true) :
    ∃ registered, registrationMs = some registered ∧ b.deposit = none ∧ b.depositCaughtUp = false ∧
      b.depositWindows < maxWindows ∧ b.depositFromMs.getD registered < nowMs := by
  unfold BalanceCheckpoint.depositUnfinished at h
  split at h
  · cases h
  · rename_i registered
    simp only [Bool.and_eq_true, Bool.not_eq_true', decide_eq_true_eq] at h
    obtain ⟨⟨⟨hdeposit, hcaught⟩, hwindows⟩, hfrom⟩ := h
    exact ⟨registered, rfl, Option.isNone_iff_eq_none.mp hdeposit, hcaught, hwindows, hfrom⟩

/-- The task with the lock reads on, or leaves. -/
theorem sought_depositNext (h : Searched account moment.nowMs (some id) b)
    (hknows : settle.Knows account) (htrader : settle.trader.isSome = true)
    (hholder : b.holder = some id) (left : ℕ) :
    Sought account moment.nowMs (b.depositNext moment id settle left) := by
  unfold BalanceCheckpoint.depositNext
  split
  · exact sought_leaveDeposit h hknows htrader
  split
  · exact sought_leaveDeposit h hknows htrader
  rename_i startMs hfrom
  split
  · rename_i hmore
    obtain ⟨_, -, hnone, -, hwindows, -⟩ := depositUnfinished_cases hmore
    refine ⟨h.awaits hknows (fun _ => htrader) ?_, by simp⟩
    exact ⟨hholder, hfrom, min_le_right _ _, hnone, hwindows⟩
  · exact sought_leaveDeposit h hknows htrader

/-- The deposit walk is taken up with its lock. -/
theorem sought_walkDepositLocked (h : Searched account moment.nowMs (some id) b)
    (hknows : settle.Knows account) (htrader : settle.trader.isSome = true)
    (hholder : b.holder = some id) :
    Sought account moment.nowMs (b.walkDepositLocked moment id settle) := by
  unfold BalanceCheckpoint.walkDepositLocked
  split
  · rename_i hmore
    obtain ⟨registered, hregistered, hnone, -, hwindows, hfrom⟩ := depositUnfinished_cases hmore
    have hbegun : Searched account moment.nowMs (some id)
        { b with depositFromMs := b.depositFromMs.or settle.registrationMs } := by
      refine ⟨h.found, fun _ _ fromMs hgiven => ?_, h.others hholder _⟩
      cases hstands : b.depositFromMs with
      | some stands =>
        obtain rfl : stands = fromMs := by simpa [hstands] using hgiven
        exact h.behind hnone hwindows stands hstands
      | none =>
        -- The walk begins at the registration, and nothing happened before it.
        obtain rfl : registered = fromMs := by simpa [hstands, hregistered] using hgiven
        have hreg : registered = account.ledger.registrationMs := by
          obtain ⟨trader, hread, hsaid⟩ := Option.bind_eq_some_iff.mp hregistered
          exact Option.some.inj (hsaid.symm.trans (hknows trader hread))
        rw [hstands] at hfrom
        refine ⟨le_of_lt hfrom, fun change hchange _ => ?_⟩
        exact hreg ▸ account.ledger.registered change hchange
    exact sought_depositNext hbegun hknows htrader hholder _
  · exact sought_leaveDeposit h hknows htrader

/-- The cash flows of the window where the shared walk stands are read. -/
theorem sought_depositRead (h : Searched account moment.nowMs (some id) b)
    (hknows : settle.Knows account) (htrader : settle.trader.isSome = true)
    {startMs endMs nowMs : ℤ} {left : ℕ}
    (hturn : (Stage.depositCashFlows startMs endMs nowMs left).Turn b moment.nowMs id)
    {operations : List ProtoOADepositWithdraw}
    (hlist : account.ListsCashFlows ⟨startMs, endMs⟩ operations) :
    Sought account moment.nowMs (b.depositRead moment id settle endMs nowMs left operations) := by
  obtain ⟨hholder, hfrom, hend, hnone, hwindows⟩ := hturn
  have hbehind := (h.behind hnone hwindows startMs hfrom).2
  unfold BalanceCheckpoint.depositRead
  dsimp only
  split
  · -- Given up: no deposit is stated any more.
    refine sought_leaveDeposit ⟨h.found, fun _ hmore => ?_, h.others hholder _⟩ hknows htrader
    exact absurd hmore (lt_irrefl _)
  rename_i changes hread
  split
  · rename_i found hfound
    have hfirst := first_of_found hlist hread hbehind hfound
    have hfoundHere : ∀ change, some found = some change → account.ledger.FirstDeposit change :=
      fun change heq => Option.some.inj heq ▸ hfirst
    split <;>
      exact sought_leaveDeposit ⟨hfoundHere, fun hno => (by cases hno), h.others hholder _⟩ hknows htrader
  rename_i hempty
  have hahead := behind_of_none hlist hread hbehind hempty
  have hmoved : ∀ fromMs, some endMs = some fromMs → fromMs ≤ moment.nowMs ∧
      ∀ change ∈ account.ledger.changes, onZero change = true → fromMs ≤ change.tsMs := by
    rintro fromMs heq
    obtain rfl := Option.some.inj heq
    exact ⟨hend, hahead⟩
  split
  · split <;>
      exact sought_leaveDeposit ⟨h.found, fun _ _ => hmoved, h.others hholder _⟩ hknows htrader
  · split
    · have hcounted : Searched account moment.nowMs (some id)
          { b with depositFromMs := some endMs, depositWindows := b.depositWindows + 1 } :=
        ⟨h.found, fun _ _ => hmoved, h.others hholder _⟩
      exact sought_depositNext hcounted hknows htrader hholder _
    · have hread : Searched account moment.nowMs (some id) { b with depositFromMs := some endMs } :=
        ⟨h.found, fun _ _ => hmoved, h.others hholder _⟩
      exact sought_depositNext hread hknows htrader hholder _

/-- A task goes to the deposit walk, or waits for its lock. -/
theorem sought_walkDeposit (h : Searched account moment.nowMs (some id) b)
    (hknows : settle.Knows account) (htrader : settle.trader.isSome = true) :
    Sought account moment.nowMs (b.walkDeposit moment id settle) := by
  unfold BalanceCheckpoint.walkDeposit
  split
  · rename_i hfree
    rw [Bool.and_eq_true, Option.isNone_iff_eq_none] at hfree
    have htaken : Searched account moment.nowMs (some id) { b with holder := some id } := by
      refine ⟨h.found, h.behind, fun other task htask hother waiting hwaiting => ?_⟩
      obtain ⟨hk, ht, hturn⟩ := h.waits other task htask hother waiting hwaiting
      refine ⟨hk, ht, ?_⟩
      cases hstage : waiting.stage with
      | depositCashFlows startMs endMs nowMs left =>
        rw [hstage] at hturn
        exact absurd (hfree.1.symm.trans hturn.1) (Option.some_ne_none _).symm
      | _ => trivial
    exact sought_walkDepositLocked htaken hknows htrader rfl
  · have hwaits : Searched account moment.nowMs (some id) { b with waiting := b.waiting ++ [id] } :=
      ⟨h.found, h.behind, h.waits⟩
    exact ⟨hwaits.awaits hknows (fun _ => htrader) trivial, by simp⟩

/-- The next window back is read, or the walk goes on to the deposit. -/
theorem sought_walkBack (h : Searched account moment.nowMs (some id) b)
    (hknows : settle.Knows account) (htrader : settle.trader.isSome = true) :
    Sought account moment.nowMs (b.walkBack moment id settle) := by
  unfold BalanceCheckpoint.walkBack
  split
  · exact ⟨h.awaits hknows (fun _ => htrader) trivial, by simp⟩
  · exact sought_walkDeposit h hknows htrader

/-- A task begins to settle its checkpoint. -/
theorem sought_settles (h : Searched account moment.nowMs (some id) b)
    (hknows : settle.Knows account) : Sought account moment.nowMs (b.settles moment id settle) := by
  unfold BalanceCheckpoint.settles
  split
  · exact ⟨h.awaits hknows (fun hne => absurd rfl hne) trivial, by simp⟩
  · rename_i trader htrader
    exact sought_walkBack h hknows (by simp [htrader])

/-- A task runs for the first time. -/
theorem sought_run (settings : Settings) (h : Searched account moment.nowMs (some id) b)
    {trader : Option ProtoOATrader} (htrader : ∀ given ∈ trader,
      given.registrationTimestamp? = some account.ledger.registrationMs)
    (bounded : Bool) :
    Sought account moment.nowMs (b.run settings moment id trader bounded) := by
  have hcleared : Searched account moment.nowMs (some id) { b with depositCaughtUp := false } :=
    ⟨h.found, h.behind, h.waits⟩
  unfold BalanceCheckpoint.run
  dsimp only
  split
  · exact ⟨hcleared.ended, by simp⟩
  split
  · exact ⟨hcleared.ended, by simp⟩
  · refine sought_settles hcleared ?_
    exact htrader

/-- The trader of a reply gives the registration. -/
def Account.Gives (account : Account) : Reply → Prop
  | .trader trader => trader.registrationTimestamp? = some account.ledger.registrationMs
  | _ => True

/-- A task goes on from its await with a reply of the account. -/
theorem sought_resume (h : Searched account moment.nowMs none b) (hknows : settle.Knows account)
    (htrader : settle.HasTrader) (hturn : settle.stage.Turn b moment.nowMs id) {reply : Reply}
    (hreply : ∀ request ∈ settle.request, account.Answers request reply)
    (hgives : account.Gives reply) :
    Sought account moment.nowMs (b.resume moment id settle reply) := by
  have hquiet : Sought account moment.nowMs (b, []) := ⟨h, by simp⟩
  have hrun := h.of_none id
  -- one stage each, in the order the task goes through them
  unfold BalanceCheckpoint.resume
  split
  · exact sought_settles hrun hknows
  · rename_i hat
    split
    · rename_i hholder
      exact sought_walkDepositLocked hrun hknows (htrader (by simp [hat])) hholder
    · exact hquiet
  · exact hquiet
  · exact hquiet
  · exact hquiet
  · exact sought_fail hrun hknows _
  · -- the trader is read, and the walk goes back
    rename_i trader _
    refine sought_walkBack hrun ?_ rfl
    exact fun given hgiven => Option.some.inj hgiven ▸ hgives
  · -- a week of deals: its cash flows are read next unless the list is incomplete
    rename_i hat
    have hread := htrader (by simp [hat])
    split
    · exact ⟨hrun.awaits hknows (fun _ => hread) trivial, by simp⟩
    · refine sought_walkBack hrun ?_ hread
      exact hknows
  · -- a week of cash flows
    rename_i hat
    refine sought_walkBack hrun ?_ (htrader (by simp [hat]))
    exact hknows
  · -- a week of the search for the first deposit
    rename_i startMs endMs nowMs left operations hat
    rw [hat] at hturn
    have hlist := hreply (.cashFlows ⟨startMs, endMs⟩) (by simp [Settle.request, hat])
    exact sought_depositRead hrun hknows (htrader (by simp [hat])) hturn hlist
  · -- the trader is read again, for the top-up
    rename_i hat
    exact sought_topUp hrun hknows (htrader (by simp [hat])) _
  · -- the deals since the walk began
    rename_i hat
    have hread := htrader (by simp [hat])
    split
    · exact ⟨hrun.awaits hknows (fun _ => hread) trivial, by simp⟩
    · have hincomplete : Settle.Knows account { settle with walk := settle.walk.incomplete } := hknows
      exact sought_topNext hrun hincomplete hread _ _ _
  · -- and their cash flows
    rename_i deals operations hat
    have hgathered : Settle.Knows account
        { settle with walk := settle.walk.read deals operations } := hknows
    exact sought_topNext hrun hgathered (htrader (by simp [hat])) _ _ _
  · exact hquiet

/-- A task that is woken goes on. -/
theorem sought_wakes (settings : Settings) (h : Searched account moment.nowMs none b) {reply : Reply}
    (hreply : ∀ task, b.tasks.get? id = some task → ∀ settle ∈ task.settle,
      ∀ request ∈ settle.request, account.Answers request reply)
    (hgives : account.Gives reply) :
    Sought account moment.nowMs (b.wakes settings moment id reply) := by
  unfold BalanceCheckpoint.wakes
  split
  · exact ⟨h, by simp⟩
  rename_i task htask
  split
  · exact ⟨(h.of_none id).letGo.ended, by simp⟩
  split
  · split
    · exact sought_run settings (h.of_none id) (by simp) false
    · exact ⟨h, by simp⟩
  · rename_i settle hsettle
    obtain ⟨hknows, htrader, hturn⟩ :=
      h.waits id task htask (Option.some_ne_none id).symm settle hsettle
    exact sought_resume h hknows htrader hturn (hreply task htask settle hsettle) hgives

/-- A trader that is read gives the account's registration. -/
def World.Gives (w : World) : Happening → Prop
  | .acts _ (.refresh trader _) => w.account.Gives (.trader trader)
  | .acts _ (.wakes _ reply) => w.account.Gives reply
  | _ => True

/-- Whatever the keeper is told to do. -/
theorem sought_act (settings : Settings) (h : Searched account moment.nowMs none b) {action : Action}
    (htold : World.Told { account, keeper := b } action)
    (hgives : World.Gives { account, keeper := b } (.acts moment action)) :
    Sought account moment.nowMs (b.act settings moment action) := by
  cases action with
  | refresh trader bounded =>
    have hcancelled := h.cancelTask
    show Sought account moment.nowMs (b.refresh settings moment trader bounded)
    unfold BalanceCheckpoint.refresh
    dsimp only
    split
    · split
      · exact ⟨hcancelled, by simp⟩
      · refine ⟨hcancelled, fun value hvalue amount hamount => ?_⟩
        obtain rfl := Record.wrote.inj (List.mem_singleton.mp hvalue)
        cases hamount
    · have hbegun : Searched account moment.nowMs (some b.cancelTask.begun)
          { b.cancelTask with begun := b.cancelTask.begun + 1 } :=
        ⟨hcancelled.found, hcancelled.behind, (hcancelled.of_none _).waits⟩
      refine sought_run settings hbegun ?_ bounded
      exact fun given hgiven => Option.some.inj hgiven ▸ hgives
  | schedule =>
    show Sought account moment.nowMs (b.schedule settings moment)
    unfold BalanceCheckpoint.schedule
    split
    · cases harm : b.arm settings moment (moment.nowMs - graceMs) with
      | none => exact ⟨⟨h.found, h.behind, h.waits⟩, by simp⟩
      | some ran =>
        obtain ⟨t, rfl⟩ := arm_eq_some harm
        exact ⟨⟨h.found, h.behind, h.waits⟩, by simp⟩
    · exact ⟨h, by simp⟩
  | fires =>
    show Sought account moment.nowMs (b.fires settings moment)
    unfold BalanceCheckpoint.fires
    split
    · exact ⟨h, by simp⟩
    split
    · exact ⟨⟨h.found, h.behind, h.waits⟩, by simp⟩
    · rename_i harm
      obtain ⟨t, heq⟩ := arm_eq_some harm
      obtain ⟨rfl, rfl⟩ := Prod.mk.inj heq
      have harmed : Searched account moment.nowMs none { b with timer := some t } :=
        ⟨h.found, h.behind, h.waits⟩
      exact ⟨harmed.startTask (by simp), by simp⟩
  | stop =>
    have hstopped : Searched account moment.nowMs none { b with stopped := true, timer := none } :=
      ⟨h.found, h.behind, h.waits⟩
    exact ⟨hstopped.cancelTask, by simp [BalanceCheckpoint.act]⟩
  | cancel id => exact ⟨h.cancel id, by simp [BalanceCheckpoint.act]⟩
  | wakes id reply => exact sought_wakes settings h htold hgives

/-! ## A run -/

/-- The walk stays in order as the clock goes forward. -/
theorem Searched.later {laterMs : ℤ} (h : Searched account clockMs none b) (hlater : clockMs ≤ laterMs) :
    Searched account laterMs none b where
  found := h.found
  behind hnone hwindows fromMs hfrom :=
    ⟨(h.behind hnone hwindows fromMs hfrom).1.trans hlater,
      (h.behind hnone hwindows fromMs hfrom).2⟩
  waits id task htask hid settle hsettle := by
    obtain ⟨hknows, htrader, hturn⟩ := h.waits id task htask hid settle hsettle
    refine ⟨hknows, htrader, ?_⟩
    cases hstage : settle.stage with
    | depositCashFlows startMs endMs nowMs left =>
      rw [hstage] at hturn
      obtain ⟨hholder, hfrom, hend, hrest⟩ := hturn
      exact ⟨hholder, hfrom, hend.trans hlater, hrest⟩
    | _ => trivial

/-- The walk stays in order while the account goes on: what is new is not behind it. -/
theorem Searched.grows {later : Account} (h : Searched account clockMs none b)
    (hgrows : account.Grows clockMs later) : Searched later clockMs none b where
  found change hfound := (h.found change hfound).grows hgrows
  behind hnone hwindows fromMs hfrom := by
    obtain ⟨hclock, hbehind⟩ := h.behind hnone hwindows fromMs hfrom
    refine ⟨hclock, fun change hchange honZero => ?_⟩
    rcases hgrows.new_change hchange with hold | hlate
    · exact hbehind change hold honZero
    · exact hclock.trans hlate
  waits id task htask hid settle hsettle := by
    obtain ⟨hknows, hrest⟩ := h.waits id task htask hid settle hsettle
    refine ⟨fun trader htrader => ?_, hrest⟩
    rw [hgrows.registered]
    exact hknows trader htrader

/-- The walk in order, and every first deposit written so far the account's. -/
structure World.Found (told : List Record) (w : World) : Prop where
  searched : Searched w.account w.clockMs none w.keeper
  first : ∀ value, .wrote value ∈ told → w.account.First value

/-- A step of the account or of the keeper. -/
theorem World.found_step (settings : Settings) {told : List Record} {w : World}
    {happening : Happening} (h : w.Found told) (hhonest : w.Honest happening)
    (hgives : w.Gives happening) :
    ((World.machine settings).step w happening).1.Found
      (told ++ ((World.machine settings).step w happening).2) := by
  cases happening with
  | books account =>
    have hgrows : w.account.Grows w.clockMs account := hhonest
    refine ⟨h.searched.grows hgrows, fun value hvalue amount hamount => ?_⟩
    rw [show ((World.machine settings).step w (.books account)).2 = [] from rfl,
      List.append_nil] at hvalue
    obtain ⟨change, hfirst, hbalance⟩ := h.first value hvalue amount hamount
    exact ⟨change, hfirst.grows hgrows, hbalance⟩
  | acts moment action =>
    obtain ⟨hclock, htold⟩ := hhonest
    have hsought : Sought w.account moment.nowMs (w.keeper.act settings moment action) :=
      sought_act settings (h.searched.later hclock) htold hgives
    refine ⟨hsought.searched, fun value hvalue => ?_⟩
    rcases List.mem_append.mp hvalue with hearlier | hnow
    · exact h.first value hearlier
    · exact hsought.first value hnow

/-- Where the broker gives the registration, every first deposit written is the balance of the account's
first deposit on a zero balance, however the tasks share the walk to it. -/
theorem written_deposit_first (settings : Settings) (account : Account) (happenings : List Happening)
    (hhonest : (World.machine settings).Always
      (fun w happening => w.Honest happening ∧ w.Gives happening) { account } happenings)
    (value : CheckpointValue)
    (hwrote : .wrote value ∈ (World.machine settings).told { account } happenings)
    (amount : ℤ) (hamount : value.firstDeposit = some amount) :
    ∃ change, ((World.machine settings).after { account } happenings).account.ledger.FirstDeposit
      change ∧ change.balance = amount := by
  have hstart : World.Found [] { account } := by
    refine ⟨⟨?_, ?_, ?_⟩, fun value hvalue => (by cases hvalue)⟩
    · exact fun change hfound => (by cases hfound)
    · exact fun _ _ fromMs hfrom => (by cases hfrom)
    · exact fun id task htask => (by cases htask)
  have hend := Machine.told_invariant_of_always
    (fun told w happening hfound hrun => World.found_step settings hfound hrun.1 hrun.2) hstart hhonest
  exact hend.first value hwrote amount hamount

/-- The walk to the first deposit finds it in the first window behind the registration. -/
theorem written_deposit_first_overtaken : ∃ value,
    .wrote value ∈ (World.machine midnight).told { account := oneLoss } overtaken ∧
    ∃ change, ((World.machine midnight).after { account := oneLoss }
      overtaken).account.ledger.FirstDeposit change ∧ change.balance = 500 := by
  have hgives : (World.machine midnight).Always World.Gives { account := oneLoss } overtaken :=
    And.intro rfl (And.intro trivial (And.intro trivial (And.intro trivial (And.intro trivial
      (And.intro rfl (And.intro trivial (And.intro trivial trivial)))))))
  exact ⟨⟨.available, some 86400000, some 500, none, some 500, some 2⟩, by decide,
    written_deposit_first midnight oneLoss overtaken (overtaken_honest.and hgives)
      ⟨.available, some 86400000, some 500, none, some 500, some 2⟩ (by decide) 500 rfl⟩

end BalanceHistory

end NautilusCtrader
