import NautilusCtrader.Common.Dict
import NautilusCtrader.Common.Sorting

/-!
# The balance at a checkpoint

The balance at a past moment is read back from the closing deals and cash flows the broker lists. A
`Ledger` is what the broker's account really did; `balanceAt` sees the part of it that was read, in
any order, and reports a balance only where that part is enough to know it.
-/

namespace NautilusCtrader

open Common

namespace BalanceHistory

/-- One change of the account balance; amounts are raw, scaled by `moneyDigits`. -/
structure BalanceChange where
  tsMs : ℤ
  version : ℤ
  balance : ℤ
  delta : Option ℤ
  moneyDigits : ℕ
  cashFlow : Bool
  deposit : Option Bool
deriving DecidableEq, Repr

/-- `Reason`. -/
inductive Reason
  | requestFailed | incomplete | noChain | openedAfter | mixedScales
deriving DecidableEq, Repr

/-- `CheckpointValue.status`. -/
inductive Status
  | available | unavailable | off
deriving DecidableEq, Repr

/-- The balance at a checkpoint, as the cache key carries it. -/
structure CheckpointValue where
  status : Status
  checkpointMs : Option ℤ
  balance : Option ℤ
  reason : Option Reason
  firstDeposit : Option ℤ
  moneyDigits : Option ℕ
deriving DecidableEq, Repr

/-- What `balance_at` answers: a value, or `NEED_EARLIER`. -/
inductive Answer
  | value (value : CheckpointValue)
  | needEarlier
deriving DecidableEq, Repr

/-- The trader as read before the history. -/
structure Trader where
  balance : ℤ
  version : ℤ
  moneyDigits : ℕ
deriving DecidableEq, Repr

/-! ## The changes in order -/

/-- `_on_zero`: a deposit made on a zero balance. -/
def onZero (change : BalanceChange) : Bool :=
  change.deposit = some true && change.delta = some change.balance

/-- `first_deposit`: the earliest deposit made on a zero balance. -/
def firstDeposit (changes : List BalanceChange) : Option BalanceChange :=
  earliest BalanceChange.version (changes.filter onZero)

/-- The changes by version, `none` if two of one version disagree. -/
def collectVersions (found : Dict ℤ BalanceChange) : List BalanceChange → Option (Dict ℤ BalanceChange)
  | [] => some found
  | change :: rest =>
    let found := found.setDefault change.version change
    if found.get? change.version = some change then collectVersions found rest else none

/-- `_by_version`: the changes ordered by version, a repeated copy dropped. -/
def byVersion (changes : List BalanceChange) : Option (List BalanceChange) :=
  (collectVersions Dict.empty changes).map fun found => (sortOn id found.keys).filterMap found.get?

/-- `_follows`. The sign of a cash flow's amount is read from the balances. -/
def follows (balance : ℤ) (change : BalanceChange) : Bool :=
  match change.delta with
  | none => false
  | some delta =>
    if change.cashFlow then
      change.balance - balance = delta || change.balance - balance = -delta
    else balance + delta = change.balance

/-- The loop of `_chain` over the changes after a balance. -/
def links (trader : Trader) (balance : ℤ) (version : Option ℤ) : List BalanceChange → Option Reason
  | [] => if version.getD 0 < trader.version then some .incomplete else none
  | change :: rest =>
    if version.isSome && version ≠ some (change.version - 1) then some .noChain
    else if !follows balance change then some .noChain
    else if change.version = trader.version && change.balance ≠ trader.balance then some .noChain
    else links trader change.balance (some change.version) rest

/-- `_chain`: why the changes `after` a balance do not lead to the trader, or `none` when they do. -/
def chain (trader : Trader) (balance : ℤ) (version : Option ℤ) (after : List BalanceChange) :
    Option Reason :=
  if version = some trader.version && balance ≠ trader.balance then some .noChain
  else links trader balance version after

/-- The last change before `t`, with the changes after it. -/
def lastBefore (t : ℤ) : List BalanceChange → Option (BalanceChange × List BalanceChange)
  | [] => none
  | change :: rest => (lastBefore t rest).or (if change.tsMs < t then some (change, rest) else none)

/-- `result`: the value of a balance, or of the reason there is none. -/
def result (t : ℤ) (deposit : Option ℤ) (trader : Trader) (balance : ℤ) :
    Option Reason → CheckpointValue
  | some reason =>
    ⟨.unavailable, some t, none, some reason, deposit, some trader.moneyDigits⟩
  | none => ⟨.available, some t, some balance, none, deposit, some trader.moneyDigits⟩

/-- `balance_at`: the balance immediately before `t`, from the changes since `coveredFromMs`. -/
def balanceAt (t : ℤ) (changes : List BalanceChange) (coveredFromMs : ℤ) (registrationMs : Option ℤ)
    (trader : Trader) (reachedCap : Bool) : Answer :=
  if changes.any fun change => change.moneyDigits ≠ trader.moneyDigits then
    .value ⟨.unavailable, some t, none, some .mixedScales, none, some trader.moneyDigits⟩
  else
    let result := result t ((firstDeposit changes).map BalanceChange.balance) trader
    match byVersion changes with
    | none => .value (result 0 (some .noChain))
    | some ordered =>
      match lastBefore t ordered with
      | some (anchor, after) =>
        .value (result anchor.balance (chain trader anchor.balance (some anchor.version) after))
      | none =>
        if registrationMs.any (t < ·) then .value (result 0 (some .openedAfter))
        else if reachedCap then .value (result 0 (some .incomplete))
        else
          match registrationMs with
          | none =>
            if coveredFromMs ≤ 0 then .value (result 0 (some .incomplete)) else .needEarlier
          | some registration =>
            if registration < coveredFromMs then .needEarlier
            else if ordered.head?.any fun first => !onZero first then
              .value (result 0 (some .noChain))
            else .value (result 0 (chain trader 0 none ordered))

/-! ## The true ledger -/

/-- Each balance is the one before plus the change. -/
def AddsUp (balance : ℤ) : List BalanceChange → Prop
  | [] => True
  | change :: rest =>
    (∃ delta, change.delta = some delta ∧ change.balance = balance + delta) ∧
      AddsUp change.balance rest

/-- What an account did since it was registered. -/
structure Ledger where
  changes : List BalanceChange
  registrationMs : ℤ
  consecutive : changes.IsChain fun change next => next.version = change.version + 1
  ordered : changes.Pairwise fun change later => change.tsMs ≤ later.tsMs
  addsUp : AddsUp 0 changes
  registered : ∀ change ∈ changes, registrationMs ≤ change.tsMs

namespace Ledger

variable (ledger : Ledger)

/-- The balance after the last change strictly before `t`, zero if there is none. -/
def balanceBefore (t : ℤ) : ℤ :=
  ((ledger.changes.filter fun change => change.tsMs < t).getLast?.map BalanceChange.balance).getD 0

/-- A ledger's changes are in the order of their versions. -/
theorem versions_increase :
    ledger.changes.Pairwise fun change later => change.version < later.version := by
  have htrans : IsTrans BalanceChange fun change later => change.version < later.version :=
    ⟨fun _ _ _ => lt_trans⟩
  refine List.IsChain.pairwise ?_
  exact ledger.consecutive.imp fun change next h => by omega

/-- A change of a later version did not happen earlier. -/
theorem tsMs_le {change later : BalanceChange} (hchange : change ∈ ledger.changes)
    (hlater : later ∈ ledger.changes) (hversion : change.version < later.version) :
    change.tsMs ≤ later.tsMs := by
  obtain ⟨earlier, rest, hsplit⟩ := List.append_of_mem hchange
  have hincrease := ledger.versions_increase
  have hordered := ledger.ordered
  rw [hsplit] at hincrease hordered hlater
  obtain ⟨_, _, hcross⟩ := List.pairwise_append.mp hincrease
  obtain ⟨_, htail, _⟩ := List.pairwise_append.mp hordered
  rcases List.mem_append.mp hlater with hearlier | hrest
  · have := hcross later hearlier change (by simp)
    omega
  · rcases List.mem_cons.mp hrest with rfl | hrest
    · exact le_rfl
    · exact (List.pairwise_cons.mp htail).1 later hrest

/-- The balance before `t` is that of a change before `t` with no later one before `t`. -/
theorem balanceBefore_of_last {t : ℤ} {change : BalanceChange} (hchange : change ∈ ledger.changes)
    (hbefore : change.tsMs < t)
    (hlast : ∀ later ∈ ledger.changes, change.version < later.version → t ≤ later.tsMs) :
    ledger.balanceBefore t = change.balance := by
  obtain ⟨earlier, rest, hsplit⟩ := List.append_of_mem hchange
  have hincrease := ledger.versions_increase
  rw [hsplit] at hincrease
  obtain ⟨_, htail, _⟩ := List.pairwise_append.mp hincrease
  have hnone : rest.filter (fun later => later.tsMs < t) = [] := by
    refine List.filter_eq_nil_iff.mpr fun later hlater => ?_
    have hversion := (List.pairwise_cons.mp htail).1 later hlater
    have hafter := hlast later (by rw [hsplit]; simp [hlater]) hversion
    simpa using hafter
  simp [balanceBefore, hsplit, hbefore, hnone]

/-- Before all its changes a ledger's balance is zero. -/
theorem balanceBefore_of_none {t : ℤ} (hnone : ∀ change ∈ ledger.changes, t ≤ change.tsMs) :
    ledger.balanceBefore t = 0 := by
  have hempty : ledger.changes.filter (fun change => change.tsMs < t) = [] :=
    List.filter_eq_nil_iff.mpr fun change hchange => by simpa using hnone change hchange
  simp [balanceBefore, hempty]

end Ledger

/-! ## What was read -/

/-- The changes collected by version are those there and those added. -/
theorem get?_collectVersions {changes : List BalanceChange} {found collected : Dict ℤ BalanceChange}
    (h : collectVersions found changes = some collected) (version : ℤ) (change : BalanceChange) :
    collected.get? version = some change ↔
      found.get? version = some change ∨ (change ∈ changes ∧ change.version = version) := by
  induction changes generalizing found with
  | nil =>
    have : found = collected := by simpa [collectVersions] using h
    simp [this]
  | cons first rest ih =>
    have hcheck : (found.setDefault first.version first).get? first.version = some first := by
      by_contra hne
      simp [collectVersions, hne] at h
    have hrest : collectVersions (found.setDefault first.version first) rest = some collected := by
      simpa [collectVersions, hcheck] using h
    -- The dictionary holds what it held, and the first change under its version.
    have hstep : (found.setDefault first.version first).get? version = some change ↔
        found.get? version = some change ∨ (change = first ∧ change.version = version) := by
      by_cases hversion : first.version = version
      · subst hversion
        rw [hcheck]
        constructor
        · intro heq
          obtain rfl := Option.some.inj heq
          exact Or.inr ⟨rfl, rfl⟩
        · rintro (hheld | ⟨rfl, -⟩)
          · rw [Dict.get?_setDefault, if_pos rfl, hheld] at hcheck
            exact hcheck.symm
          · rfl
      · rw [Dict.get?_setDefault, if_neg hversion]
        constructor
        · exact Or.inl
        · rintro (hheld | ⟨rfl, heq⟩)
          · exact hheld
          · exact absurd heq hversion
    rw [ih hrest, hstep, List.mem_cons]
    tauto

/-- Changes ordered by version are the same changes. -/
theorem mem_byVersion {changes ordered : List BalanceChange} (h : byVersion changes = some ordered)
    (change : BalanceChange) : change ∈ ordered ↔ change ∈ changes := by
  obtain ⟨found, hfound, rfl⟩ := Option.map_eq_some_iff.mp h
  have hget := get?_collectVersions hfound
  simp only [Dict.get?_empty, reduceCtorEq, false_or] at hget
  rw [List.mem_filterMap]
  constructor
  · rintro ⟨version, _, hversion⟩
    exact ((hget version change).mp hversion).1
  · intro hmem
    have hheld := (hget change.version change).mpr ⟨hmem, rfl⟩
    refine ⟨change.version, ?_, hheld⟩
    rw [mem_sortOn]
    exact List.mem_map.mpr ⟨_, Dict.get?_eq_some.mp hheld, rfl⟩

/-- The changes read are ordered by version, each once. -/
theorem byVersion_increases {changes ordered : List BalanceChange}
    (h : byVersion changes = some ordered) :
    ordered.Pairwise fun change later => change.version < later.version := by
  obtain ⟨found, hfound, rfl⟩ := Option.map_eq_some_iff.mp h
  have hget := get?_collectVersions hfound
  simp only [Dict.get?_empty, reduceCtorEq, false_or] at hget
  have hsorted : (sortOn id found.keys).Pairwise (· < ·) := by
    have hnodup : (sortOn id found.keys).Nodup := (sortOn_perm id found.keys).nodup_iff.mpr found.nodup
    exact (sortOn_pairwise id found.keys).imp₂ (fun _ _ hle hne => lt_of_le_of_ne hle hne) hnodup
  refine List.pairwise_filterMap.mpr (hsorted.imp ?_)
  intro version later hlt change hchange next hnext
  rw [((hget version change).mp hchange).2, ((hget later next).mp hnext).2]
  exact hlt

/-- Without a last change before `t`, all are from `t` on. -/
theorem lastBefore_eq_none {t : ℤ} {changes : List BalanceChange} (h : lastBefore t changes = none) :
    ∀ change ∈ changes, t ≤ change.tsMs := by
  induction changes with
  | nil => simp
  | cons first rest ih =>
    obtain ⟨hrest, hfirst⟩ := Option.or_eq_none_iff.mp h
    intro change hchange
    rcases List.mem_cons.mp hchange with rfl | hmem
    · by_contra hlt
      simp [not_le.mp hlt] at hfirst
    · exact ih hrest change hmem

/-- The last change before `t` splits the changes at `t`. -/
theorem lastBefore_eq_some {t : ℤ} {changes after : List BalanceChange} {anchor : BalanceChange}
    (h : lastBefore t changes = some (anchor, after)) :
    anchor.tsMs < t ∧ ∃ earlier, changes = earlier ++ anchor :: after ∧
      ∀ change ∈ after, t ≤ change.tsMs := by
  induction changes with
  | nil => simp [lastBefore] at h
  | cons first rest ih =>
    rcases Option.or_eq_some_iff.mp h with hrest | ⟨hnone, hfirst⟩
    · obtain ⟨hbefore, earlier, hsplit, hafter⟩ := ih hrest
      exact ⟨hbefore, first :: earlier, by rw [hsplit]; rfl, hafter⟩
    · by_cases hbefore : first.tsMs < t
      · rw [if_pos hbefore, Option.some.injEq, Prod.mk.injEq] at hfirst
        obtain ⟨rfl, rfl⟩ := hfirst
        exact ⟨hbefore, [], rfl, lastBefore_eq_none hnone⟩
      · simp [hbefore] at hfirst

/-! ## Soundness -/

/-- A result that is available has the balance it was given. -/
theorem result_available {t : ℤ} {deposit : Option ℤ} {trader : Trader} {balance : ℤ}
    {reason : Option Reason} (h : (result t deposit trader balance reason).status = .available) :
    (result t deposit trader balance reason).balance = some balance := by
  cases reason with
  | none => rfl
  | some reason => exact absurd h (by simp [result])

/-- A result that is available has no reason against it. -/
theorem result_reason {t : ℤ} {deposit : Option ℤ} {trader : Trader} {balance : ℤ}
    {reason : Option Reason} (h : (result t deposit trader balance reason).status = .available) :
    reason = none := by
  cases reason with
  | none => rfl
  | some reason => exact absurd h (by simp [result])

/-- An available balance is that of the last change before `t`, or zero when the changes read reach
back to the registration and none of them is before `t`; the changes after it lead to the trader. -/
theorem balanceAt_available {t coveredFromMs : ℤ} {changes : List BalanceChange}
    {registrationMs : Option ℤ} {trader : Trader} {reachedCap : Bool} {value : CheckpointValue}
    (h : balanceAt t changes coveredFromMs registrationMs trader reachedCap = .value value)
    (havailable : value.status = .available) :
    ∃ ordered, byVersion changes = some ordered ∧
      ((∃ anchor after, lastBefore t ordered = some (anchor, after) ∧
          value.balance = some anchor.balance ∧
          chain trader anchor.balance (some anchor.version) after = none) ∨
        (lastBefore t ordered = none ∧ value.balance = some 0 ∧ chain trader 0 none ordered = none ∧
          reachedCap = false ∧
          ∃ registration ∈ registrationMs, registration ≤ t ∧ coveredFromMs ≤ registration)) := by
  unfold balanceAt at h
  -- the branches of `balanceAt` in order; only two give an available balance
  split at h
  case isTrue =>
    obtain rfl := Answer.value.inj h
    exact absurd havailable (by simp)
  case isFalse =>
    cases hordered : byVersion changes with
    | none =>
      simp only [hordered, Answer.value.injEq] at h
      subst h
      exact absurd havailable (by simp [result])
    | some ordered =>
      refine ⟨ordered, rfl, ?_⟩
      cases hlast : lastBefore t ordered with
      | some found =>
        obtain ⟨anchor, after⟩ := found
        simp only [hordered, hlast, Answer.value.injEq] at h
        subst h
        exact Or.inl ⟨anchor, after, rfl, result_available havailable, result_reason havailable⟩
      | none =>
        simp only [hordered, hlast] at h
        split at h
        · obtain rfl := Answer.value.inj h
          exact absurd havailable (by simp [result])
        -- no change is before `t`, so only the registration can tell that the balance was zero
        rename_i hopened
        split at h
        · obtain rfl := Answer.value.inj h
          exact absurd havailable (by simp [result])
        rename_i hcap
        split at h
        · split at h
          · obtain rfl := Answer.value.inj h
            exact absurd havailable (by simp [result])
          · exact absurd h (by simp)
        · rename_i registration
          split at h
          · exact absurd h (by simp)
          rename_i hcovered
          split at h
          · obtain rfl := Answer.value.inj h
            exact absurd havailable (by simp [result])
          · obtain rfl := Answer.value.inj h
            have hregistered : registration ≤ t := by simpa using hopened
            exact Or.inr ⟨rfl, result_available havailable, result_reason havailable,
              by simpa using hcap, registration, rfl, hregistered, by omega⟩

/-- A balance reported as available is the account's balance before `t`. The trader read with the
history needs no assumption: with the changes read exactly, a trader that does not fit only makes
the balance unavailable. -/
theorem balanceAt_sound (ledger : Ledger) (t coveredFromMs : ℤ) (changes : List BalanceChange)
    (hchanges : ∀ change, change ∈ changes ↔ change ∈ ledger.changes ∧ coveredFromMs ≤ change.tsMs)
    (registrationMs : Option ℤ)
    (hregistration : ∀ registration ∈ registrationMs, registration = ledger.registrationMs)
    (trader : Trader) (reachedCap : Bool) (value : CheckpointValue)
    (h : balanceAt t changes coveredFromMs registrationMs trader reachedCap = .value value)
    (havailable : value.status = .available) :
    value.balance = some (ledger.balanceBefore t) := by
  obtain ⟨ordered, hordered, hcases⟩ := balanceAt_available h havailable
  have hmem : ∀ change, change ∈ ordered ↔ change ∈ ledger.changes ∧ coveredFromMs ≤ change.tsMs :=
    fun change => (mem_byVersion hordered change).trans (hchanges change)
  rcases hcases with ⟨anchor, after, hlast, hbalance, -⟩ |
    ⟨hnone, hbalance, -, -, registration, hgiven, -, hcovered⟩
  · obtain ⟨hbefore, earlier, hsplit, hafter⟩ := lastBefore_eq_some hlast
    obtain ⟨hanchor, hcovered⟩ := (hmem anchor).mp (by rw [hsplit]; simp)
    have hincrease := byVersion_increases hordered
    rw [hsplit] at hincrease
    obtain ⟨_, _, hcross⟩ := List.pairwise_append.mp hincrease
    -- A later change happened no earlier, so it was read too, and follows the anchor there.
    have hlater : ∀ later ∈ ledger.changes, anchor.version < later.version → t ≤ later.tsMs := by
      intro later hlater hversion
      have htime := ledger.tsMs_le hanchor hlater hversion
      have hread : later ∈ earlier ++ anchor :: after := by
        rw [← hsplit]
        exact (hmem later).mpr ⟨hlater, by omega⟩
      rcases List.mem_append.mp hread with hearlier | hrest
      · have := hcross later hearlier anchor (by simp)
        omega
      · rcases List.mem_cons.mp hrest with rfl | hrest
        · omega
        · exact hafter later hrest
    rw [hbalance, ledger.balanceBefore_of_last hanchor hbefore hlater]
  · have hall : ∀ change ∈ ledger.changes, t ≤ change.tsMs := by
      intro change hchange
      have hregistered := ledger.registered change hchange
      have := hregistration registration hgiven
      exact lastBefore_eq_none hnone change ((hmem change).mpr ⟨hchange, by omega⟩)
    rw [hbalance, ledger.balanceBefore_of_none hall]

/-- A deposit and a loss; the account's balance before the loss. -/
def depositThenLoss : Ledger where
  changes := [⟨10, 1, 500, some 500, 2, true, some true⟩, ⟨20, 2, 450, some (-50), 2, false, none⟩]
  registrationMs := 5
  consecutive := by decide
  ordered := by decide
  addsUp := by exact ⟨⟨500, rfl, rfl⟩, ⟨-50, rfl, rfl⟩, trivial⟩
  registered := by decide

/-- The balance between a deposit and a loss, from a list that repeats both. -/
theorem balanceAt_sound_between :
    balanceAt 20 (depositThenLoss.changes.reverse ++ depositThenLoss.changes) 5 (some 5)
        ⟨450, 2, 2⟩ false =
      .value ⟨.available, some 20, some 500, none, some 500, some 2⟩ ∧
    some 500 = some (depositThenLoss.balanceBefore 20) :=
  ⟨by decide, balanceAt_sound depositThenLoss 20 5
    (depositThenLoss.changes.reverse ++ depositThenLoss.changes)
    (fun change => by
      constructor
      · intro hmem
        have hread : change ∈ depositThenLoss.changes := by simpa [or_self] using hmem
        exact ⟨hread, depositThenLoss.registered change hread⟩
      · rintro ⟨hmem, -⟩
        exact List.mem_append_right _ hmem)
    (some 5) (by decide) ⟨450, 2, 2⟩ false
    ⟨.available, some 20, some 500, none, some 500, some 2⟩ (by decide) rfl⟩

/-! ## The trader's own balance -/

/-- The change of the greatest version. -/
structure Newest (changes : List BalanceChange) (newest : BalanceChange) : Prop where
  read : newest ∈ changes
  last : ∀ change ∈ changes, change.version ≤ newest.version

/-- The changes lead to the trader's balance: the newest is no older than the trader's version, and of
the trader's balance if it is that version. No changes are version 0, of balance 0. -/
structure ReachesTrader (changes : List BalanceChange) (trader : Trader) : Prop where
  none : changes = [] → trader.version ≤ 0 ∧ (trader.version = 0 → trader.balance = 0)
  newest : ∀ newest, Newest changes newest →
    trader.version ≤ newest.version ∧ (newest.version = trader.version → newest.balance = trader.balance)

/-- A chain without a gap ends at the trader's version or later, and has the trader's balance at it. -/
theorem links_reach {trader : Trader} {balance : ℤ} {version : Option ℤ} {after : List BalanceChange}
    (h : links trader balance version after = none) :
    (after = [] → trader.version ≤ version.getD 0) ∧
      ∀ last, after.getLast? = some last → trader.version ≤ last.version ∧
        (last.version = trader.version → last.balance = trader.balance) := by
  induction after generalizing balance version with
  | nil =>
    have hreached : ¬ version.getD 0 < trader.version := by
      intro hbehind
      simp [links, hbehind] at h
    exact ⟨fun _ => by omega, fun last hlast => by cases hlast⟩
  | cons change rest ih =>
    unfold links at h
    split at h
    · cases h
    · split at h
      · cases h
      · split at h
        · cases h
        · rename_i hfits
          have hchange : change.version = trader.version → change.balance = trader.balance := by
            intro hversion
            by_contra hbalance
            exact hfits (by simp [hversion, hbalance])
          obtain ⟨hend, hlast⟩ := ih h
          refine ⟨fun hnil => absurd hnil (List.cons_ne_nil _ _), fun last hmem => ?_⟩
          cases rest with
          | nil =>
            obtain rfl : change = last := Option.some.inj hmem
            exact ⟨hend rfl, hchange⟩
          | cons next later =>
            rw [List.getLast?_cons_cons] at hmem
            exact hlast last hmem

/-- The newest change is the one ordered last. -/
theorem newest_of_getLast {changes ordered : List BalanceChange} {last : BalanceChange}
    (h : byVersion changes = some ordered) (hlast : ordered.getLast? = some last) :
    ∀ newest, Newest changes newest → newest = last := by
  obtain ⟨earlier, rfl⟩ := List.getLast?_eq_some_iff.mp hlast
  intro newest hnewest
  have hread := (mem_byVersion h newest).mpr hnewest.read
  rcases List.mem_append.mp hread with hearlier | hsame
  · have hincrease := byVersion_increases h
    obtain ⟨-, -, hcross⟩ := List.pairwise_append.mp hincrease
    have hbefore := hcross newest hearlier last (List.mem_singleton_self last)
    have hafter := hnewest.last last ((mem_byVersion h last).mp (by simp))
    omega
  · exact List.mem_singleton.mp hsame

/-- Only no changes order to none. -/
theorem byVersion_eq_nil {changes : List BalanceChange} (h : byVersion changes = some []) :
    changes = [] :=
  List.eq_nil_iff_forall_not_mem.mpr fun change hchange =>
    List.not_mem_nil ((mem_byVersion h change).mpr hchange)

/-- A checkpoint is trusted: where its balance is available the changes lead to the trader's. -/
def Trusted (t : ℤ) (changes : List BalanceChange) (coveredFromMs : ℤ) (registrationMs : Option ℤ)
    (trader : Trader) (reachedCap : Bool) : Prop :=
  ∀ value, balanceAt t changes coveredFromMs registrationMs trader reachedCap = .value value →
    value.status = .available → ReachesTrader changes trader

/-- No change was read back to the registration, and the trader has a balance at version 0. -/
def startsElsewhere (t : ℤ) (changes : List BalanceChange) (coveredFromMs : ℤ)
    (registrationMs : Option ℤ) (trader : Trader) (reachedCap : Bool) : Bool :=
  changes = [] && trader.version = 0 && trader.balance ≠ 0 && !reachedCap &&
    registrationMs.any fun registration => registration ≤ t && coveredFromMs ≤ registration

/-- The chain from zero has no version to compare with the trader's, so that alone is not checked. -/
theorem trusted_iff (t : ℤ) (changes : List BalanceChange) (coveredFromMs : ℤ)
    (registrationMs : Option ℤ) (trader : Trader) (reachedCap : Bool) :
    Trusted t changes coveredFromMs registrationMs trader reachedCap ↔
      startsElsewhere t changes coveredFromMs registrationMs trader reachedCap = false := by
  constructor
  · intro htrusted
    by_contra hstarts
    rw [Bool.not_eq_false] at hstarts
    simp only [startsElsewhere, Bool.and_eq_true, decide_eq_true_eq, Bool.not_eq_true',
      Option.any_eq_true] at hstarts
    -- no change was read, and the account would start from zero while the trader has a balance
    obtain ⟨⟨⟨⟨rfl, hversion⟩, hbalance⟩, hcap⟩, registration, hgiven, hregistered, hcovered⟩ :=
      hstarts
    have hlinks : chain trader 0 none [] = none := by
      simp [chain, links, hversion]
    -- so the answer is an available zero, which is not the trader's
    have hanswer : balanceAt t [] coveredFromMs registrationMs trader reachedCap =
        .value (result t none trader 0 none) := by
      have hordered : byVersion [] = some [] := rfl
      have hnotOpened : ¬ t < registration := not_lt.mpr hregistered
      have hread : ¬ registration < coveredFromMs := not_lt.mpr hcovered
      simp [balanceAt, hordered, lastBefore, hgiven, hcap, hnotOpened, hread, hlinks, firstDeposit,
        earliest]
    exact hbalance (((htrusted _ hanswer rfl).none rfl).2 hversion)
  · intro hstarts value hvalue havailable
    obtain ⟨ordered, hordered, hcases⟩ := balanceAt_available hvalue havailable
    -- the answer comes from the change before `t`, or from the registration
    rcases hcases with ⟨anchor, after, hlast, -, hchain⟩ |
      ⟨hnone, -, hchain, hcap, registration, hgiven, hregistered, hcovered⟩
    · obtain ⟨-, earlier, hsplit, -⟩ := lastBefore_eq_some hlast
      have hne : ordered ≠ [] := by
        rw [hsplit]
        simp
      have hread : changes ≠ [] := by
        rintro rfl
        exact hne (Option.some.inj (hordered.symm.trans rfl))
      refine ⟨fun hnil => absurd hnil hread, fun newest hnewest => ?_⟩
      unfold chain at hchain
      split at hchain
      · cases hchain
      · rename_i hstart
        obtain ⟨hend, hlinked⟩ := links_reach hchain
        -- the newest change is the last of those after, or the anchor itself
        cases hafter : after.getLast? with
        | some last =>
          have hall : ordered.getLast? = some last := by
            rw [hsplit, List.getLast?_append, List.getLast?_cons, hafter]
            rfl
          rw [newest_of_getLast hordered hall newest hnewest]
          exact hlinked last hafter
        | none =>
          rw [List.getLast?_eq_none_iff] at hafter
          have hall : ordered.getLast? = some anchor := by
            rw [hsplit, hafter]
            simp
          rw [newest_of_getLast hordered hall newest hnewest]
          refine ⟨hend hafter, fun hversion => ?_⟩
          by_contra hbalance
          exact hstart (by simp [hversion, hbalance])
    · have hlinks : links trader 0 none ordered = none := hchain
      obtain ⟨hend, hlinked⟩ := links_reach hlinks
      -- without a change the trader's own balance has to be zero
      refine ⟨fun hnil => ?_, fun newest hnewest => ?_⟩
      · subst hnil
        obtain rfl : [] = ordered := Option.some.inj hordered
        refine ⟨hend rfl, fun hversion => ?_⟩
        by_contra hbalance
        obtain rfl : registrationMs = some registration := hgiven
        simp [startsElsewhere, hversion, hbalance, hcap, hregistered, hcovered] at hstarts
      · cases hall : ordered.getLast? with
        | some last =>
          rw [newest_of_getLast hordered hall newest hnewest]
          exact hlinked last hall
        | none =>
          rw [List.getLast?_eq_none_iff] at hall
          rw [hall] at hordered
          have hread := hnewest.read
          rw [byVersion_eq_nil hordered] at hread
          exact absurd hread List.not_mem_nil

/-- A trader with a balance at version 0: no change states it, and the balance at the checkpoint is
reported as zero. -/
theorem unversioned_balance_missed : ¬ ∀ (t : ℤ) (changes : List BalanceChange) (coveredFromMs : ℤ)
    (registrationMs : Option ℤ) (trader : Trader) (reachedCap : Bool),
    Trusted t changes coveredFromMs registrationMs trader reachedCap := by
  intro h
  have hreaches : ReachesTrader [] ⟨500, 0, 2⟩ :=
    h 20 [] 5 (some 5) ⟨500, 0, 2⟩ false
      ⟨.available, some 20, some 0, none, none, some 2⟩ (by decide) rfl
  exact absurd ((hreaches.none rfl).2 rfl) (by decide)

end BalanceHistory

end NautilusCtrader
