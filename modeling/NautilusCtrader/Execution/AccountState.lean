import NautilusCtrader.Common.Dict
import NautilusCtrader.Common.Machine
import NautilusCtrader.Common.Newest
import NautilusCtrader.VenueRecords

/-!
# The account state

Closing deals, deposits and trader reads state the balance, each with its version, and position states
their margin, each with its time. A statement older than the one held is ignored, so the statements may
be handled in any order: the balance ends as the highest version's and each margin as its position's
newest state has it (`account_confluent`).
-/

namespace NautilusCtrader

open Common

namespace AccountState

/-! ## What the messages state -/

/-- The fields of a position that its margin is read from. -/
structure PositionMargin where
  positionId : ℤ
  symbolId : ℤ
  positionStatus : ProtoOAPositionStatus
  utcLastUpdateTimestamp : ℤ := 0
  usedMargin : ℕ := 0
  moneyDigits? : Option ℕ := none
deriving DecidableEq, Repr

/-- The fields of a trader, a closing deal's detail or a deposit that state the balance. -/
structure StatedBalance where
  balance : ℤ
  moneyDigits? : Option ℕ := none
  balanceVersion? : Option ℤ := none
deriving DecidableEq, Repr

/-- What an execution event carries of the account state; a balance with the time of its change. -/
structure AccountEvent where
  position? : Option PositionMargin := none
  closePositionDetail? : Option (StatedBalance × ℤ) := none
  depositWithdraw? : Option (StatedBalance × ℤ) := none
deriving DecidableEq, Repr

/-- A message with account state, as the client gets it. -/
inductive AccountMessage
  | execution (event : AccountEvent)
  /-- A trader read for a connect or a reconnect. -/
  | traderRead (trader : StatedBalance)
  /-- A trader read for an account query, which is answered with the state in any case. -/
  | traderQueried (trader : StatedBalance)
  | traderUpdated (trader : StatedBalance)
deriving DecidableEq, Repr

/-! ## The client's fields -/

/-- The client's fields for the account state. -/
structure Account where
  balance : ℚ := 0
  balanceVersion : ℤ := -1
  /-- Each open position's symbol and margin. -/
  margins : Dict ℤ (ℤ × ℚ) := Dict.empty
  /-- When the state held of a position was made, kept for a closed one too. -/
  marginTimes : Dict ℤ ℤ := Dict.empty

/-- An account state sent, at the time of its change or now. -/
structure Statement where
  balance : ℚ
  margins : List (ℤ × ℚ)
  tsMs : Option ℤ
deriving DecidableEq, Repr

/-- `_money`: an amount a message carries, at its own digits, else at the account's. -/
def money (digits : ℕ) (amount : ℤ) (own : Option ℕ) : ℚ := moneyOf amount (own.getD digits)

namespace Account

variable (digits : ℕ) (a : Account)

/-- The time of the state held of a position, before every time for one without. -/
def marginTime (positionId : ℤ) : ℤ := (a.marginTimes.get? positionId).getD (-1)

/-- `_set_margin`: keep one position's margin; whether it changed. -/
def setMargin (position : PositionMargin) : Account × Bool :=
  if position.utcLastUpdateTimestamp < a.marginTime position.positionId then (a, false)
  else
    let held := a.margins.get? position.positionId
    let a := { a with
      marginTimes := a.marginTimes.set position.positionId position.utcLastUpdateTimestamp }
    if position.positionStatus ≠ .open then
      ({ a with margins := a.margins.erase position.positionId }, held.isSome)
    else
      let entry := (position.symbolId, money digits position.usedMargin position.moneyDigits?)
      if held = some entry then (a, false)
      else ({ a with margins := a.margins.set position.positionId entry }, true)

/-- The end of `_set_balance`: the balance becomes `balance`. -/
def takeBalance (balance : ℚ) : Account × Bool :=
  if balance = a.balance then (a, false) else ({ a with balance }, true)

/-- `_set_balance`: take a balance the broker reports; whether it changed. -/
def setBalance (stated : StatedBalance) : Account × Bool :=
  let balance := money digits stated.balance stated.moneyDigits?
  match stated.balanceVersion? with
  | none => a.takeBalance balance
  | some version =>
    if version ≤ a.balanceVersion then (a, false)
    else { a with balanceVersion := version }.takeBalance balance

/-- `_emit_account_state`. -/
def emitAccountState (tsMs : Option ℤ) : Statement := ⟨a.balance, a.margins.values, tsMs⟩

/-- `_set_margin` of a position an event carries, if it does. -/
def setMarginOf (position : Option PositionMargin) : Account × Bool :=
  match position with
  | none => (a, false)
  | some position => a.setMargin digits position

/-- `_set_balance` of what an event carries, if it does. -/
def setBalanceOf (stated : Option (StatedBalance × ℤ)) : Account × Bool :=
  match stated with
  | none => (a, false)
  | some stated => a.setBalance digits stated.1

/-- `_update_account`. -/
def updateAccount (event : AccountEvent) : Account × List Statement :=
  let margin := a.setMarginOf digits event.position?
  let closed := margin.1.setBalanceOf digits event.closePositionDetail?
  let deposited := closed.1.setBalanceOf digits event.depositWithdraw?
  let tsMs := (event.depositWithdraw?.or event.closePositionDetail?).map Prod.snd
  (deposited.1,
    if margin.2 || closed.2 || deposited.2 then [deposited.1.emitAccountState tsMs] else [])

/-- What a message does. -/
def take : AccountMessage → Account × List Statement
  | .execution event => a.updateAccount digits event
  | .traderRead trader => ((a.setBalance digits trader).1, [])
  | .traderQueried trader =>
    let set := a.setBalance digits trader
    (set.1, [set.1.emitAccountState none])
  | .traderUpdated trader =>
    let set := a.setBalance digits trader
    (set.1, if set.2 then [set.1.emitAccountState none] else [])

end Account

/-- The client as it handles one message after another. -/
def machine (digits : ℕ) : Machine Account AccountMessage Statement where
  step a message := a.take digits message

/-! ## What a message offers -/

/-- The position state a message carries. -/
def positionsOf : AccountMessage → List PositionMargin
  | .execution event => event.position?.toList
  | _ => []

/-- The balances a message carries. -/
def balancesOf : AccountMessage → List StatedBalance
  | .execution event =>
    (event.closePositionDetail?.map Prod.fst).toList ++ (event.depositWithdraw?.map Prod.fst).toList
  | .traderRead trader | .traderQueried trader | .traderUpdated trader => [trader]

/-- The messages' balances have versions of their own, and the states of a position times of their
own. -/
structure DistinctStamps (messages : List AccountMessage) : Prop where
  versioned : ∀ stated ∈ messages.flatMap balancesOf, stated.balanceVersion?.isSome = true
  versions : ((messages.flatMap balancesOf).map StatedBalance.balanceVersion?).Nodup
  times : ((messages.flatMap positionsOf).map fun position =>
    (position.positionId, position.utcLastUpdateTimestamp)).Nodup

/-- One account state is another, at every position. -/
structure SameState (a a' : Account) : Prop where
  balance : a.balance = a'.balance
  balanceVersion : a.balanceVersion = a'.balanceVersion
  margin : ∀ positionId, a.margins.get? positionId = a'.margins.get? positionId
  marginTime : ∀ positionId, a.marginTimes.get? positionId = a'.marginTimes.get? positionId

/-- The margin a position state leaves its position with. -/
def marginOf (digits : ℕ) (position : PositionMargin) : Option (ℤ × ℚ) :=
  if position.positionStatus ≠ .open then none
  else some (position.symbolId, money digits position.usedMargin position.moneyDigits?)

/-- The balance `later` holds is that of the highest version of `stated`, if that is above the one
`a` holds, else the one `a` holds. -/
structure NewestBalance (digits : ℕ) (a later : Account) (stated : List StatedBalance) : Prop where
  newest : ∀ highest ∈ stated, ∀ version ∈ highest.balanceVersion?, a.balanceVersion < version →
    (∀ other ∈ stated, ∀ version' ∈ other.balanceVersion?, version' ≤ version) →
    later.balance = money digits highest.balance highest.moneyDigits?
  older : (∀ other ∈ stated, ∀ version' ∈ other.balanceVersion?, version' ≤ a.balanceVersion) →
    later.balance = a.balance

/-- The margin `later` holds of a position is that of its newest state of `states`, unless that is older
than the one `a` holds, whose margin then stays. -/
structure NewestMargins (digits : ℕ) (a later : Account) (states : List PositionMargin) : Prop where
  newest : ∀ newest ∈ states, a.marginTime newest.positionId ≤ newest.utcLastUpdateTimestamp →
    (∀ other ∈ states, other.positionId = newest.positionId →
      other.utcLastUpdateTimestamp ≤ newest.utcLastUpdateTimestamp) →
    later.margins.get? newest.positionId = marginOf digits newest
  older : ∀ positionId, (∀ other ∈ states, other.positionId = positionId →
      other.utcLastUpdateTimestamp < a.marginTime positionId) →
    later.margins.get? positionId = a.margins.get? positionId

/-! ## What a message leaves -/

/-- The balance held, with its version. -/
def heldBalance (a : Account) : ℤ × ℚ := (a.balanceVersion, a.balance)

/-- The balance a message states, with its version. -/
def offeredBalance (digits : ℕ) (stated : StatedBalance) : ℤ × ℚ :=
  (stated.balanceVersion?.getD 0, money digits stated.balance stated.moneyDigits?)

/-- The margin held of a position, with its time. -/
def heldMargin (a : Account) (positionId : ℤ) : Option ℤ × Option (ℤ × ℚ) :=
  (a.marginTimes.get? positionId, a.margins.get? positionId)

/-- The margin a position state leaves, with its time. -/
def offeredMargin (digits : ℕ) (position : PositionMargin) : Option ℤ × Option (ℤ × ℚ) :=
  (some position.utcLastUpdateTimestamp, marginOf digits position)

/-- The time of a margin, before every time for one without. -/
def marginStamp (held : Option ℤ × Option (ℤ × ℚ)) : ℤ := held.1.getD (-1)

/-- The balance once another was stated. -/
def nextBalance (digits : ℕ) (held : ℤ × ℚ) (stated : StatedBalance) : ℤ × ℚ :=
  keepNewer (· < ·) Prod.fst held (offeredBalance digits stated)

/-- A position's margin once another state of it came. -/
def nextMargin (digits : ℕ) (held : Option ℤ × Option (ℤ × ℚ)) (position : PositionMargin) :
    Option ℤ × Option (ℤ × ℚ) :=
  keepNewer (· ≤ ·) marginStamp held (offeredMargin digits position)

section Steps

variable {digits : ℕ} {a : Account} {stated : StatedBalance} {position : PositionMargin}

/-- A balance that is taken changes the balance only. -/
theorem takeBalance_balance (balance : ℚ) : (a.takeBalance balance).1 = { a with balance } := by
  unfold Account.takeBalance
  by_cases h : balance = a.balance
  · rw [if_pos h, h]
  · rw [if_neg h]

/-- A balance with a version is taken if it is as new. -/
theorem setBalance_held (h : stated.balanceVersion?.isSome = true) :
    heldBalance (a.setBalance digits stated).1 = nextBalance digits (heldBalance a) stated := by
  obtain ⟨version, hversion⟩ := Option.isSome_iff_exists.mp h
  have hoffer : offeredBalance digits stated =
      (version, money digits stated.balance stated.moneyDigits?) := by
    unfold offeredBalance
    rw [hversion, Option.getD_some]
  unfold Account.setBalance nextBalance keepNewer
  rw [hversion, hoffer]
  by_cases hold : version ≤ a.balanceVersion
  · refine Eq.trans ?_ (if_neg (not_lt.mpr hold)).symm
    exact congrArg (fun set : Account × Bool => heldBalance set.1) (if_pos hold)
  · refine Eq.trans ?_ (if_pos (not_le.mp hold)).symm
    refine (congrArg (fun set : Account × Bool => heldBalance set.1) (if_neg hold)).trans ?_
    rw [takeBalance_balance]
    rfl

/-- A balance changes no margin. -/
theorem setBalance_margins : (a.setBalance digits stated).1.margins = a.margins ∧
    (a.setBalance digits stated).1.marginTimes = a.marginTimes := by
  unfold Account.setBalance
  dsimp only
  split
  · rw [takeBalance_balance]
    exact ⟨rfl, rfl⟩
  · split
    · exact ⟨rfl, rfl⟩
    · rw [takeBalance_balance]
      exact ⟨rfl, rfl⟩

/-- A margin changes no balance. -/
theorem setMargin_balance : heldBalance (a.setMargin digits position).1 = heldBalance a := by
  unfold Account.setMargin
  dsimp only
  split
  · rfl
  · split
    · rfl
    · split <;> rfl

/-- A position state leaves its position with the newer of the two margins. -/
theorem setMargin_held : heldMargin (a.setMargin digits position).1 position.positionId =
    nextMargin digits (heldMargin a position.positionId) position := by
  unfold Account.setMargin nextMargin keepNewer
  by_cases hold : position.utcLastUpdateTimestamp < a.marginTime position.positionId
  · rw [if_pos hold]
    exact (if_neg (not_le.mpr hold)).symm
  · rw [if_neg hold]
    refine Eq.trans ?_ (if_pos (not_lt.mp hold)).symm
    unfold offeredMargin marginOf heldMargin
    by_cases hopen : position.positionStatus ≠ .open
    · rw [if_pos hopen, if_pos hopen, Dict.get?_set_self, Dict.get?_erase_self]
    · rw [if_neg hopen, if_neg hopen]
      dsimp only
      split
      case isTrue hsame => rw [Dict.get?_set_self, hsame]
      case isFalse => rw [Dict.get?_set_self, Dict.get?_set_self]

/-- A position state leaves the other positions. -/
theorem setMargin_other {positionId : ℤ} (h : position.positionId ≠ positionId) :
    heldMargin (a.setMargin digits position).1 positionId = heldMargin a positionId := by
  unfold Account.setMargin heldMargin
  dsimp only
  split
  · rfl
  · split
    · rw [Dict.get?_set_of_ne _ _ h, Dict.get?_erase, if_neg (Ne.symm h)]
    · split
      · rw [Dict.get?_set_of_ne _ _ h]
      · rw [Dict.get?_set_of_ne _ _ h, Dict.get?_set_of_ne _ _ h]

/-- A balance leaves every position's margin. -/
theorem setBalance_other (positionId : ℤ) :
    heldMargin (a.setBalance digits stated).1 positionId = heldMargin a positionId := by
  unfold heldMargin
  rw [setBalance_margins.1, setBalance_margins.2]

/-- A message leaves the newest of the balance held and those it states. -/
theorem take_balance {message : AccountMessage}
    (h : ∀ stated ∈ balancesOf message, stated.balanceVersion?.isSome = true) :
    heldBalance (a.take digits message).1 =
      (balancesOf message).foldl (nextBalance digits) (heldBalance a) := by
  have hset (a : Account) (stated : Option (StatedBalance × ℤ))
      (hin : ∀ one ∈ (stated.map Prod.fst).toList, one.balanceVersion?.isSome = true) :
      heldBalance (a.setBalanceOf digits stated).1 =
        (stated.map Prod.fst).toList.foldl (nextBalance digits) (heldBalance a) := by
    cases stated with
    | none => rfl
    | some one => exact setBalance_held (hin one.1 List.mem_cons_self)
  have hmargin (position : Option PositionMargin) :
      heldBalance (a.setMarginOf digits position).1 = heldBalance a := by
    cases position with
    | none => rfl
    | some one => exact setMargin_balance
  cases message with
  | execution event =>
    show heldBalance (Account.setBalanceOf _ _ _).1 = List.foldl _ _ (_ ++ _)
    rw [List.foldl_append, hset _ _ fun one hone => h one (List.mem_append_right _ hone),
      hset _ _ fun one hone => h one (List.mem_append_left _ hone), hmargin]
  | traderRead trader => exact setBalance_held (h trader List.mem_cons_self)
  | traderQueried trader => exact setBalance_held (h trader List.mem_cons_self)
  | traderUpdated trader => exact setBalance_held (h trader List.mem_cons_self)

/-- A message leaves the newest of the margin held of a position and that of the state it carries. -/
theorem take_margin (message : AccountMessage) (positionId : ℤ) :
    heldMargin (a.take digits message).1 positionId =
      ((positionsOf message).filter (·.positionId = positionId)).foldl (nextMargin digits)
        (heldMargin a positionId) := by
  have hset (a : Account) (stated : Option (StatedBalance × ℤ)) :
      heldMargin (a.setBalanceOf digits stated).1 positionId = heldMargin a positionId := by
    cases stated with
    | none => rfl
    | some one => exact setBalance_other positionId
  cases message with
  | execution event =>
    show heldMargin (Account.setBalanceOf _ _ _).1 _ = _
    rw [hset, hset]
    show heldMargin (a.setMarginOf digits event.position?).1 positionId =
      (event.position?.toList.filter _).foldl _ _
    cases event.position? with
    | none => rfl
    | some position =>
      by_cases hid : position.positionId = positionId
      · rw [Option.toList_some, List.filter_cons_of_pos (by simpa using hid)]
        subst hid
        exact setMargin_held
      · rw [Option.toList_some, List.filter_cons_of_neg (by simpa using hid)]
        exact setMargin_other hid
  | traderRead trader => exact setBalance_other positionId
  | traderQueried trader => exact setBalance_other positionId
  | traderUpdated trader => exact setBalance_other positionId

end Steps

/-! ## What the messages leave -/

section Runs

variable {digits : ℕ} {a : Account} {messages messages' : List AccountMessage}

/-- After a run the balance is that of its balances taken in turn. -/
theorem after_balance
    (h : ∀ stated ∈ messages.flatMap balancesOf, stated.balanceVersion?.isSome = true) :
    heldBalance ((machine digits).after a messages) =
      (messages.flatMap balancesOf).foldl (nextBalance digits) (heldBalance a) := by
  induction messages generalizing a with
  | nil => rfl
  | cons message messages ih =>
    rw [List.flatMap_cons] at h
    rw [Machine.after_cons, ih fun stated hin => h stated (List.mem_append_right _ hin),
      List.flatMap_cons, List.foldl_append]
    refine congrArg (List.foldl _ · _) (take_balance ?_)
    exact fun stated hin => h stated (List.mem_append_left _ hin)

/-- After a run a position's margin is that of its own states taken in turn. -/
theorem after_margin (positionId : ℤ) : heldMargin ((machine digits).after a messages) positionId =
    ((messages.flatMap positionsOf).filter (·.positionId = positionId)).foldl (nextMargin digits)
      (heldMargin a positionId) := by
  induction messages generalizing a with
  | nil => rfl
  | cons message messages ih =>
    rw [Machine.after_cons, ih, List.flatMap_cons, List.filter_append, List.foldl_append]
    exact congrArg (List.foldl _ · _) (take_margin message positionId)

/-- Offers of a list are offers of what they are made from. -/
theorem foldl_nextBalance (stated : List StatedBalance) (held : ℤ × ℚ) :
    stated.foldl (nextBalance digits) held =
      (stated.map (offeredBalance digits)).foldl (keepNewer (· < ·) Prod.fst) held := by
  rw [List.foldl_map]
  rfl

/-- Margins taken in turn are offers of which the newest is kept. -/
theorem foldl_nextMargin (states : List PositionMargin) (held : Option ℤ × Option (ℤ × ℚ)) :
    states.foldl (nextMargin digits) held =
      (states.map (offeredMargin digits)).foldl (keepNewer (· ≤ ·) marginStamp) held := by
  rw [List.foldl_map]
  rfl

/-- Balances with versions of their own are offers with versions of their own. -/
theorem DistinctStamps.offered (h : DistinctStamps messages) (digits : ℕ) :
    (((messages.flatMap balancesOf).map (offeredBalance digits)).map Prod.fst).Nodup := by
  rw [List.map_map]
  refine List.Nodup.map_on ?_ h.versions.of_map
  intro one hone other hother hsame
  refine List.inj_on_of_nodup_map h.versions hone hother ?_
  obtain ⟨version, hversion⟩ := Option.isSome_iff_exists.mp (h.versioned one hone)
  obtain ⟨version', hversion'⟩ := Option.isSome_iff_exists.mp (h.versioned other hother)
  simp only [Function.comp_apply, offeredBalance, hversion, hversion', Option.getD_some] at hsame
  rw [hversion, hversion', hsame]

/-- States of a position with times of their own are offers with times of their own. -/
theorem DistinctStamps.offeredMargins (h : DistinctStamps messages) (digits : ℕ) (positionId : ℤ) :
    ((((messages.flatMap positionsOf).filter (·.positionId = positionId)).map
      (offeredMargin digits)).map marginStamp).Nodup := by
  rw [List.map_map]
  refine List.Nodup.map_on ?_ (h.times.of_map.filter _)
  intro one hone other hother hsame
  rw [List.mem_filter, decide_eq_true_eq] at hone hother
  refine List.inj_on_of_nodup_map h.times hone.1 hother.1 ?_
  rw [hone.2, hother.2]
  exact congrArg (positionId, ·) hsame

/-- The messages leave the newest of the balances. -/
theorem newestBalance (h : DistinctStamps messages) :
    NewestBalance digits a ((machine digits).after a messages) (messages.flatMap balancesOf) := by
  have hheld : heldBalance ((machine digits).after a messages) =
      (messages.flatMap balancesOf).foldl (nextBalance digits) (heldBalance a) := after_balance h.versioned
  rw [foldl_nextBalance] at hheld
  have hstamp {stated : StatedBalance} {version : ℤ} (hin : version ∈ stated.balanceVersion?) :
      offeredBalance digits stated = (version, money digits stated.balance stated.moneyDigits?) := by
    unfold offeredBalance
    rw [hin, Option.getD_some]
  have hversion {stated : StatedBalance} (hin : stated ∈ messages.flatMap balancesOf) :
      ∃ version, version ∈ stated.balanceVersion? :=
    Option.isSome_iff_exists.mp (h.versioned stated hin)
  rcases settles_foldl supersedes_lt Prod.fst (heldBalance a)
    ((messages.flatMap balancesOf).map (offeredBalance digits)) with ⟨hsame, hnone⟩ | ⟨hmem, hlater, hall⟩
  · rw [← hheld] at hsame
    refine ⟨fun highest hin version hhighest hlt => ?_, fun _ => congrArg Prod.snd hsame⟩
    have hnot := hnone _ (List.mem_map_of_mem hin)
    rw [hstamp hhighest] at hnot
    exact absurd hlt hnot
  · rw [← hheld] at hmem hlater hall
    obtain ⟨stated, hin, hoffered⟩ := List.mem_map.mp hmem
    obtain ⟨version, hstated⟩ := hversion hin
    rw [hstamp hstated] at hoffered
    rw [← hoffered] at hlater hall
    constructor
    · intro highest hhighest version' hversion' _ hothers
      -- both have the highest version, which is one balance's only
      have hle := hall _ (List.mem_map_of_mem hhighest)
      rw [hstamp hversion'] at hle
      have hsame : version' = version := le_antisymm hle (hothers stated hin version hstated)
      have hone : highest = stated := by
        refine List.inj_on_of_nodup_map h.versions hhighest hin ?_
        rw [hversion', hstated, hsame]
      rw [hone]
      exact (congrArg Prod.snd hoffered).symm
    · intro hothers
      exact absurd hlater (not_lt.mpr (hothers stated hin version hstated))

/-- The messages leave each position the newest of its margins. -/
theorem newestMargins (h : DistinctStamps messages) :
    NewestMargins digits a ((machine digits).after a messages) (messages.flatMap positionsOf) := by
  have hsettles (positionId : ℤ) := settles_foldl supersedes_le marginStamp (heldMargin a positionId)
    (((messages.flatMap positionsOf).filter (·.positionId = positionId)).map (offeredMargin digits))
  simp only [← foldl_nextMargin, ← after_margin] at hsettles
  have hmem {position : PositionMargin} {positionId : ℤ} :
      position ∈ (messages.flatMap positionsOf).filter (·.positionId = positionId) ↔
        position ∈ messages.flatMap positionsOf ∧ position.positionId = positionId := by
    rw [List.mem_filter, decide_eq_true_eq]
  constructor
  · intro newest hnewest hle hothers
    have hin := hmem.mpr ⟨hnewest, rfl⟩
    rcases hsettles newest.positionId with ⟨-, hnone⟩ | ⟨hoffers, -, hall⟩
    · exact absurd hle (hnone _ (List.mem_map_of_mem hin))
    · obtain ⟨position, hposition, hoffered⟩ := List.mem_map.mp hoffers
      obtain ⟨hstate, hid⟩ := hmem.mp hposition
      rw [← hoffered] at hall
      -- both have the newest time, which is one state's only
      have hsame : newest.utcLastUpdateTimestamp = position.utcLastUpdateTimestamp :=
        le_antisymm (hall _ (List.mem_map_of_mem hin)) (hothers position hstate hid)
      have hone : newest = position := by
        refine List.inj_on_of_nodup_map h.times hnewest hstate ?_
        rw [hid, hsame]
      rw [hone] at hoffered ⊢
      exact (congrArg Prod.snd hoffered).symm
  · intro positionId hothers
    rcases hsettles positionId with ⟨hsame, -⟩ | ⟨hoffers, hlater, -⟩
    · exact congrArg Prod.snd hsame
    · obtain ⟨position, hposition, hoffered⟩ := List.mem_map.mp hoffers
      obtain ⟨hstate, hid⟩ := hmem.mp hposition
      rw [← hoffered] at hlater
      exact absurd hlater (not_le.mpr (hothers position hstate hid))

/-- **Any order of arrival.** Messages with versions and times of their own leave the same account state
in every order they are handled in: the balance of the highest version, and each position's margin as its
newest state has it. -/
theorem account_confluent (digits : ℕ) (a : Account) {messages messages' : List AccountMessage}
    (hperm : messages.Perm messages') (h : DistinctStamps messages) :
    SameState ((machine digits).after a messages) ((machine digits).after a messages') ∧
      NewestBalance digits a ((machine digits).after a messages) (messages.flatMap balancesOf) ∧
      NewestMargins digits a ((machine digits).after a messages) (messages.flatMap positionsOf) := by
  refine ⟨?_, newestBalance h, newestMargins h⟩
  have hbalances := hperm.flatMap_right balancesOf
  have hstates := hperm.flatMap_right positionsOf
  have hbalance : heldBalance ((machine digits).after a messages) =
      heldBalance ((machine digits).after a messages') := by
    rw [after_balance h.versioned,
      after_balance fun stated hin => h.versioned stated (hbalances.mem_iff.mpr hin), foldl_nextBalance,
      foldl_nextBalance]
    exact foldl_keepNewer_perm supersedes_lt (hbalances.map _) (h.offered digits) _
  have hmargin (positionId : ℤ) : heldMargin ((machine digits).after a messages) positionId =
      heldMargin ((machine digits).after a messages') positionId := by
    rw [after_margin, after_margin, foldl_nextMargin, foldl_nextMargin]
    exact foldl_keepNewer_perm supersedes_le ((hstates.filter _).map _)
      (h.offeredMargins digits positionId) _
  exact ⟨congrArg Prod.snd hbalance, congrArg Prod.fst hbalance, fun p => congrArg Prod.snd (hmargin p),
    fun p => congrArg Prod.fst (hmargin p)⟩

/-- A closing deal and a read taken before it, which may be applied after it. -/
def closingDeal : AccountMessage :=
  .execution
    { position? := some
        { positionId := 5, symbolId := 1, positionStatus := .closed, utcLastUpdateTimestamp := 40 }
      closePositionDetail? := some ({ balance := 105000, balanceVersion? := some 8 }, 40) }

def earlierDeal : AccountMessage :=
  .execution
    { position? := some
        { positionId := 5, symbolId := 1, positionStatus := .open, utcLastUpdateTimestamp := 30,
          usedMargin := 1200 } }

def earlierRead : AccountMessage := .traderRead { balance := 100000, balanceVersion? := some 7 }

/-- A closed position's margin and the balance its close left stay, whatever comes late. -/
theorem closed_stays :
    SameState ((machine 2).after {} [earlierRead, earlierDeal, closingDeal])
        ((machine 2).after {} [closingDeal, earlierRead, earlierDeal]) ∧
      NewestBalance 2 {} ((machine 2).after {} [earlierRead, earlierDeal, closingDeal])
        ([earlierRead, earlierDeal, closingDeal].flatMap balancesOf) ∧
      NewestMargins 2 {} ((machine 2).after {} [earlierRead, earlierDeal, closingDeal])
        ([earlierRead, earlierDeal, closingDeal].flatMap positionsOf) :=
  account_confluent 2 {} (by decide) ⟨by decide, by decide, by decide⟩

end Runs

end AccountState

end NautilusCtrader
