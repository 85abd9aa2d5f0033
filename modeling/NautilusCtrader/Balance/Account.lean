import NautilusCtrader.Balance.Walks
import NautilusCtrader.Common.Raising

/-!
# The account behind the lists

An `Account` is a ledger with the items the broker lists of it. It only grows, by changes that come
later than every moment the node's clock has shown. A `Walk` that is `Right` holds changes of the
account only and, unless it failed, every one from where it has read to before its checkpoint; the
value made of it is then the balance the ledger had there.
-/

namespace NautilusCtrader

open Common

namespace BalanceHistory

/-! ## The account -/

/-- A change as a list states it: a change that is no deposit may come with the sign of its amount
reversed. -/
def States (found change : BalanceChange) : Prop :=
  found = change ∨
    change.deposit = some false ∧ found = { change with delta := change.delta.map Neg.neg }

/-- A change states the time of the one in the ledger. -/
theorem States.tsMs {found change : BalanceChange} (h : States found change) :
    found.tsMs = change.tsMs := by
  rcases h with rfl | ⟨-, rfl⟩ <;> rfl

/-- It states no other version. -/
theorem States.version {found change : BalanceChange} (h : States found change) :
    found.version = change.version := by
  rcases h with rfl | ⟨-, rfl⟩ <;> rfl

/-- It states no other balance. -/
theorem States.balance {found change : BalanceChange} (h : States found change) :
    found.balance = change.balance := by
  rcases h with rfl | ⟨-, rfl⟩ <;> rfl

/-- It is a deposit just if the other is. -/
theorem States.deposit {found change : BalanceChange} (h : States found change) :
    found.deposit = change.deposit := by
  rcases h with rfl | ⟨-, rfl⟩ <;> rfl

/-- A deposit is listed as it is. -/
theorem States.eq_of_deposit {found change : BalanceChange} (h : States found change)
    (hdeposit : found.deposit = some true) : found = change := by
  rcases h with rfl | ⟨hother, rfl⟩
  · rfl
  · exact absurd (hother.symm.trans hdeposit) (by decide)

/-- An account: what it did, and the items that are listed of it. Opening deals are listed too. -/
structure Account where
  ledger : Ledger
  items : List Item
  keys : (items.map Item.key).Nodup
  stated : ∀ item ∈ items, ∀ found, item.change? = .ok (some found) →
    ∃ change ∈ ledger.changes, States found change
  listed : ∀ change ∈ ledger.changes, ∃ item ∈ items,
    item.key.1 = change.deposit.isSome ∧ item.tsMs = change.tsMs ∧
    ∀ found, item.change? = .ok found → ∃ statement, found = some statement ∧ States statement change

/-- An account goes on: more happens, none of it before `clockMs`. -/
structure Account.Grows (account : Account) (clockMs : ℤ) (later : Account) : Prop where
  registered : later.ledger.registrationMs = account.ledger.registrationMs
  changes : ∃ more, later.ledger.changes = account.ledger.changes ++ more ∧
    ∀ change ∈ more, clockMs ≤ change.tsMs
  items : ∃ more, later.items = account.items ++ more ∧ ∀ item ∈ more, clockMs ≤ item.tsMs

namespace Account.Grows

variable {account later : Account} {clockMs : ℤ}

/-- An account that goes on keeps its changes. -/
theorem mem_changes (h : account.Grows clockMs later) {change : BalanceChange}
    (hchange : change ∈ account.ledger.changes) : change ∈ later.ledger.changes := by
  obtain ⟨more, heq, -⟩ := h.changes
  rw [heq]
  exact List.mem_append_left more hchange

/-- It keeps its deals and cash flows. -/
theorem mem_items (h : account.Grows clockMs later) {item : Item} (hitem : item ∈ account.items) :
    item ∈ later.items := by
  obtain ⟨more, heq, -⟩ := h.items
  rw [heq]
  exact List.mem_append_left more hitem

/-- What it adds is not older than the clock. -/
theorem new_change (h : account.Grows clockMs later) {change : BalanceChange}
    (hchange : change ∈ later.ledger.changes) :
    change ∈ account.ledger.changes ∨ clockMs ≤ change.tsMs := by
  obtain ⟨more, heq, hmore⟩ := h.changes
  rw [heq] at hchange
  exact (List.mem_append.mp hchange).imp_right (hmore change)

/-- A deal or a cash flow it adds is not older than the clock. -/
theorem new_item (h : account.Grows clockMs later) {item : Item} (hitem : item ∈ later.items) :
    item ∈ account.items ∨ clockMs ≤ item.tsMs := by
  obtain ⟨more, heq, hmore⟩ := h.items
  rw [heq] at hitem
  exact (List.mem_append.mp hitem).imp_right (hmore item)

/-- What happens later does not move the balance of the past. -/
theorem balanceBefore (h : account.Grows clockMs later) {t : ℤ} (ht : t ≤ clockMs) :
    later.ledger.balanceBefore t = account.ledger.balanceBefore t := by
  obtain ⟨more, heq, hmore⟩ := h.changes
  have hnone : more.filter (fun change => change.tsMs < t) = [] := by
    refine List.filter_eq_nil_iff.mpr fun change hchange => ?_
    have := hmore change hchange
    simpa using by omega
  unfold Ledger.balanceBefore
  rw [heq, List.filter_append, hnone, List.append_nil]

end Account.Grows

/-- A key names an item. -/
theorem Account.eq_of_key (account : Account) {item other : Item} (hitem : item ∈ account.items)
    (hother : other ∈ account.items) (hkey : item.key = other.key) : item = other :=
  List.inj_on_of_nodup_map account.keys hitem hother hkey

instance (window : History.Window) (ms : ℤ) : Decidable (window.Holds ms) :=
  inferInstanceAs (Decidable (_ ∧ _))

/-- A complete deal list of a window: deals of the account in it, each before the window's end among
them. -/
structure Account.ListsDeals (account : Account) (window : History.Window) (deals : List ProtoOADeal) :
    Prop where
  ours : ∀ deal ∈ deals, .deal deal ∈ account.items ∧ window.Holds deal.executionTimestamp
  all : ∀ deal, .deal deal ∈ account.items → window.fromMs ≤ deal.executionTimestamp →
    deal.executionTimestamp < window.toMs → deal ∈ deals

/-- A cash-flow list of a window: what the account had in it at one moment, which is not before the
window's end. -/
def Account.ListsCashFlows (account : Account) (window : History.Window)
    (operations : List ProtoOADepositWithdraw) : Prop :=
  ∃ past : Account, past.Grows window.toMs account ∧
    ∀ operation, operation ∈ operations ↔
      .cashFlow operation ∈ past.items ∧ window.Holds operation.changeBalanceTimestamp

/-- The items of a window, read in two lists. -/
structure Account.Lists (account : Account) (window : History.Window) (items : List Item) : Prop where
  ours : ∀ item ∈ items, item ∈ account.items
  since : ∀ item ∈ items, window.fromMs ≤ item.tsMs
  all : ∀ item ∈ account.items, window.fromMs ≤ item.tsMs → item.tsMs < window.toMs → item ∈ items

/-- A list of a window in the past stays the list of that window. -/
theorem Account.ListsDeals.grows {account later : Account} {clockMs : ℤ} {window : History.Window}
    {deals : List ProtoOADeal} (h : account.ListsDeals window deals)
    (hgrows : account.Grows clockMs later) (hwindow : window.toMs ≤ clockMs) :
    later.ListsDeals window deals where
  ours deal hdeal := ⟨hgrows.mem_items (h.ours deal hdeal).1, (h.ours deal hdeal).2⟩
  all deal hdeal hfrom hto := by
    rcases hgrows.new_item hdeal with hours | hlate
    · exact h.all deal hours hfrom hto
    · have hlate : clockMs ≤ deal.executionTimestamp := hlate
      omega

/-- Listed cash flows are the account's, in the window. -/
theorem Account.ListsCashFlows.ours {account : Account} {window : History.Window}
    {operations : List ProtoOADepositWithdraw} (h : account.ListsCashFlows window operations)
    {operation : ProtoOADepositWithdraw} (hoperation : operation ∈ operations) :
    .cashFlow operation ∈ account.items ∧ window.Holds operation.changeBalanceTimestamp := by
  obtain ⟨past, hpast, hlisted⟩ := h
  obtain ⟨hours, hholds⟩ := (hlisted operation).mp hoperation
  exact ⟨hpast.mem_items hours, hholds⟩

/-- The lists of deals and of cash flows make the list of both. -/
theorem Account.lists {account : Account} {window : History.Window} {deals : List ProtoOADeal}
    {operations : List ProtoOADepositWithdraw} (hdeals : account.ListsDeals window deals)
    (hoperations : account.ListsCashFlows window operations) :
    account.Lists window (deals.map .deal ++ operations.map .cashFlow) where
  ours item hitem := by
    rcases List.mem_append.mp hitem with hdeal | hoperation
    · obtain ⟨deal, hmem, rfl⟩ := List.mem_map.mp hdeal
      exact (hdeals.ours deal hmem).1
    · obtain ⟨operation, hmem, rfl⟩ := List.mem_map.mp hoperation
      exact (hoperations.ours hmem).1
  since item hitem := by
    rcases List.mem_append.mp hitem with hdeal | hoperation
    · obtain ⟨deal, hmem, rfl⟩ := List.mem_map.mp hdeal
      exact (hdeals.ours deal hmem).2.1
    · obtain ⟨operation, hmem, rfl⟩ := List.mem_map.mp hoperation
      exact (hoperations.ours hmem).2.1
  all item hitem hfrom hto := by
    cases item with
    | deal deal =>
      exact List.mem_append_left _ (List.mem_map_of_mem (hdeals.all deal hitem hfrom hto))
    | cashFlow operation =>
      obtain ⟨past, hpast, hlisted⟩ := hoperations
      have hthen : .cashFlow operation ∈ past.items := by
        rcases hpast.new_item hitem with hthen | hlate
        · exact hthen
        · omega
      have hholds : window.Holds operation.changeBalanceTimestamp := ⟨hfrom, le_of_lt hto⟩
      exact List.mem_append_right _ (List.mem_map_of_mem ((hlisted operation).mpr ⟨hthen, hholds⟩))

/-- The change of a deal or a cash flow has its time. -/
theorem tsMs_of_change? {item : Item} {found : BalanceChange} (h : item.change? = .ok (some found)) :
    found.tsMs = item.tsMs := by
  cases item with
  | deal deal =>
    have h : changeOfDeal deal = .ok (some found) := h
    unfold changeOfDeal at h
    split at h
    · cases h
    · obtain ⟨version, -, hrest⟩ := bind_eq_ok.mp h
      obtain ⟨digits, -, hfound⟩ := bind_eq_ok.mp hrest
      obtain rfl := Option.some.inj (Except.ok.inj hfound)
      rfl
  | cashFlow operation =>
    obtain ⟨change, hchange, hfound⟩ : ∃ change, changeOfCashFlow operation = .ok change ∧
        some change = some found := by
      have h : (changeOfCashFlow operation).map some = .ok (some found) := h
      obtain ⟨change, hchange⟩ := exists_of_map h
      rw [hchange] at h
      exact ⟨change, hchange, Except.ok.inj h⟩
    obtain ⟨version, -, hrest⟩ := bind_eq_ok.mp hchange
    obtain ⟨digits, -, hmade⟩ := bind_eq_ok.mp hrest
    obtain rfl := Except.ok.inj hmade
    obtain rfl := Option.some.inj hfound
    rfl

/-! ## What a walk gathers -/

/-- The changes a walk holds are those items of the account state. -/
def Walk.Holds (walk : Walk) (account : Account) : Prop :=
  ∀ key found, walk.changes.get? key = some found →
    ∃ item ∈ account.items, item.key = key ∧ item.change? = .ok (some found)

/-- What gathering items leaves as it is. -/
structure Walk.Kept (walk later : Walk) : Prop where
  tMs : later.tMs = walk.tMs
  upperMs : later.upperMs = walk.upperMs
  coveredFromMs : later.coveredFromMs = walk.coveredFromMs
  windows : later.windows = walk.windows

/-- A walk that misses a field keeps what it has. -/
theorem Walk.kept_missing (walk : Walk) (field : MissingField) : walk.Kept (walk.missing field) := by
  cases field <;> exact ⟨rfl, rfl, rfl, rfl⟩

/-- A walk that gathers items keeps what it has. -/
theorem Walk.kept_gather (walk : Walk) (items : List Item) : walk.Kept (walk.gather items) := by
  induction items generalizing walk with
  | nil => exact ⟨rfl, rfl, rfl, rfl⟩
  | cons item rest ih =>
    unfold Walk.gather
    split
    · exact walk.kept_missing _
    · exact ih walk
    · obtain ⟨htMs, hupper, hcovered, hwindows⟩ := ih { walk with changes := walk.changes.set item.key _ }
      exact ⟨htMs, hupper, hcovered, hwindows⟩

/-- A walk that misses a field has failed. -/
theorem Walk.failure_missing (walk : Walk) (field : MissingField) :
    (walk.missing field).failure ≠ none := by
  cases field <;> exact Option.some_ne_none _

/-- A walk that did not fail gathered what every item states. -/
theorem Walk.changes_of_gather {walk : Walk} {items : List Item}
    (h : (walk.gather items).failure = none) :
    walk.failure = none ∧ ∀ item ∈ items, ∃ found, item.change? = .ok found := by
  induction items generalizing walk with
  | nil => exact ⟨h, fun item hitem => absurd hitem List.not_mem_nil⟩
  | cons item rest ih =>
    unfold Walk.gather at h
    split at h
    · exact absurd h (walk.failure_missing _)
    · rename_i hchange
      obtain ⟨hwalk, hrest⟩ := ih h
      exact ⟨hwalk, List.forall_mem_cons.mpr ⟨⟨none, hchange⟩, hrest⟩⟩
    · rename_i change hchange
      obtain ⟨hwalk, hrest⟩ := ih h
      exact ⟨hwalk, List.forall_mem_cons.mpr ⟨⟨some change, hchange⟩, hrest⟩⟩

/-- The changes a walk gathers from the account's items are the account's. -/
theorem Walk.holds_gather {account : Account} {walk : Walk} {items : List Item}
    (hours : ∀ item ∈ items, item ∈ account.items) (h : walk.Holds account) :
    (walk.gather items).Holds account := by
  induction items generalizing walk with
  | nil => exact h
  | cons item rest ih =>
    have hrest := fun other hother => hours other (List.mem_cons_of_mem _ hother)
    unfold Walk.gather
    split
    · rename_i field hchange
      cases field <;> exact h
    · exact ih hrest h
    · rename_i change hchange
      refine ih hrest fun key found hfound => ?_
      rcases Dict.get?_set_eq_some.mp hfound with ⟨rfl, rfl⟩ | ⟨-, hheld⟩
      · exact ⟨item, hours item List.mem_cons_self, rfl, hchange⟩
      · exact h key found hheld

/-- What is held was so early at the earliest, if the items are no earlier. -/
theorem Walk.since_gather {fromMs : ℤ} {walk : Walk} {items : List Item}
    (hitems : ∀ item ∈ items, fromMs ≤ item.tsMs)
    (h : ∀ key found, walk.changes.get? key = some found → fromMs ≤ found.tsMs) :
    ∀ key found, (walk.gather items).changes.get? key = some found → fromMs ≤ found.tsMs := by
  induction items generalizing walk with
  | nil => exact h
  | cons item rest ih =>
    have hrest := fun other hother => hitems other (List.mem_cons_of_mem _ hother)
    unfold Walk.gather
    split
    · rename_i field _
      cases field <;> exact h
    · exact ih hrest h
    · rename_i change hchange
      refine ih hrest (Dict.forall_set h ?_)
      rw [tsMs_of_change? hchange]
      exact hitems item List.mem_cons_self

/-- What an item of the account states stays under its key, whatever else is gathered. -/
theorem Walk.get?_gather {account : Account} {walk : Walk} {items : List Item}
    (hours : ∀ item ∈ items, item ∈ account.items) {item : Item} (hitem : item ∈ account.items)
    {found : BalanceChange} (hchange : item.change? = .ok (some found))
    (hheld : walk.changes.get? item.key = some found) :
    (walk.gather items).changes.get? item.key = some found := by
  induction items generalizing walk with
  | nil => exact hheld
  | cons other rest ih =>
    have hrest := fun next hnext => hours next (List.mem_cons_of_mem _ hnext)
    unfold Walk.gather
    split
    · rename_i field _
      cases field <;> exact hheld
    · exact ih hrest hheld
    · rename_i change hother
      refine ih hrest ?_
      rw [Dict.get?_set]
      split
      · rename_i hkey
        have hsame := account.eq_of_key (hours other List.mem_cons_self) hitem hkey
        rw [hsame, hchange] at hother
        exact (Option.some.inj (Except.ok.inj hother)) ▸ rfl
      · exact hheld

/-- Each item gathered is held with what it states. -/
theorem Walk.get?_of_mem {account : Account} {walk : Walk} {items : List Item}
    (hours : ∀ item ∈ items, item ∈ account.items) (h : (walk.gather items).failure = none)
    {item : Item} (hitem : item ∈ items) {found : BalanceChange}
    (hchange : item.change? = .ok (some found)) :
    (walk.gather items).changes.get? item.key = some found := by
  induction items generalizing walk with
  | nil => exact absurd hitem List.not_mem_nil
  | cons other rest ih =>
    have hrest := fun next hnext => hours next (List.mem_cons_of_mem _ hnext)
    unfold Walk.gather at h ⊢
    rcases List.mem_cons.mp hitem with rfl | hlater
    · simp only [hchange] at h ⊢
      refine Walk.get?_gather hrest (hours item List.mem_cons_self) hchange ?_
      exact (Dict.get?_set _ _ _ _).trans (if_pos rfl)
    · split at h
      · exact absurd h (walk.failure_missing _)
      · exact ih hrest h hlater
      · exact ih hrest h hlater

/-! ## A right walk -/

/-- A change of the account that a walk holds. -/
def Walk.Has (walk : Walk) (change : BalanceChange) : Prop :=
  ∃ key found, walk.changes.get? key = some found ∧ States found change

/-- A walk holds changes of the account only, from where it has read on, and unless it failed every one of
those before its checkpoint. -/
structure Walk.Right (account : Account) (clockMs : ℤ) (walk : Walk) : Prop where
  begun : walk.tMs ≤ clockMs
  read : 0 ≤ walk.coveredFromMs ∧ walk.coveredFromMs ≤ walk.upperMs ∧ walk.coveredFromMs ≤ clockMs
  holds : walk.Holds account
  since : ∀ key found, walk.changes.get? key = some found → walk.coveredFromMs ≤ found.tsMs
  covers : walk.failure = none → ∀ change ∈ account.ledger.changes, walk.coveredFromMs ≤ change.tsMs →
    change.tsMs < walk.tMs → walk.Has change

/-- A walk that failed covers nothing. -/
theorem Walk.Right.failed {account : Account} {clockMs : ℤ} {walk : Walk} (h : walk.Right account clockMs)
    (reason : Reason) : ({ walk with failure := some reason } : Walk).Right account clockMs where
  begun := h.begun
  read := h.read
  holds := h.holds
  since := h.since
  covers hfailure := absurd hfailure (Option.some_ne_none _)

/-- A walk does not lose a change by gathering more. -/
theorem Walk.Has.gather {account : Account} {walk : Walk} {items : List Item} {change : BalanceChange}
    (hholds : walk.Holds account) (hours : ∀ item ∈ items, item ∈ account.items) (h : walk.Has change) :
    (walk.gather items).Has change := by
  obtain ⟨key, found, hfound, hstates⟩ := h
  obtain ⟨item, hitem, rfl, hchange⟩ := hholds key found hfound
  exact ⟨item.key, found, Walk.get?_gather hours hitem hchange hfound, hstates⟩

/-- Items from where the walk has read on may be gathered at any time. -/
theorem Walk.Right.gather {account : Account} {clockMs : ℤ} {walk : Walk}
    (h : walk.Right account clockMs) {items : List Item}
    (hours : ∀ item ∈ items, item ∈ account.items)
    (hsince : ∀ item ∈ items, walk.coveredFromMs ≤ item.tsMs) :
    (walk.gather items).Right account clockMs := by
  obtain ⟨htMs, hupper, hcovered, -⟩ := walk.kept_gather items
  refine ⟨htMs ▸ h.begun, by rw [hcovered, hupper]; exact h.read, Walk.holds_gather hours h.holds, ?_, ?_⟩
  · rw [hcovered]
    exact Walk.since_gather hsince h.since
  rw [htMs, hcovered]
  intro hfailure change hchange hfrom hbefore
  have hwalk := (Walk.changes_of_gather hfailure).1
  exact (h.covers hwalk change hchange hfrom hbefore).gather h.holds hours

/-- The next window back begins no earlier than the epoch, and no later than what is covered. -/
theorem Walk.windowBack_from {account : Account} {clockMs : ℤ} {walk : Walk}
    (h : walk.Right account clockMs) :
    0 ≤ walk.windowBack.fromMs ∧ walk.windowBack.fromMs ≤ walk.coveredFromMs := by
  have := h.read.1
  unfold Walk.windowBack weekMs
  dsimp only
  omega

/-- What `_walk_back` notes behind a read of a window. -/
theorem Walk.Right.wentBack {account : Account} {clockMs : ℤ} {walk later : Walk}
    (h : walk.Right account clockMs) (trader : ProtoOATrader) (hkept : walk.Kept later)
    (hholds : later.Holds account)
    (hsince : ∀ key found, later.changes.get? key = some found →
      walk.windowBack.fromMs ≤ found.tsMs)
    (hcovers : later.failure = none → ∀ change ∈ account.ledger.changes,
      walk.windowBack.fromMs ≤ change.tsMs → change.tsMs < walk.tMs → later.Has change) :
    (later.wentBack walk.windowBack.fromMs trader).Right account clockMs := by
  obtain ⟨htMs, hupper, hcovered, -⟩ := hkept
  obtain ⟨hzero, hback⟩ := walk.windowBack_from h
  obtain ⟨-, hread, hclock⟩ := h.read
  have hright : ({ later with
      coveredFromMs := walk.windowBack.fromMs, windows := later.windows + 1 } : Walk).Right account
        clockMs :=
    { begun := htMs ▸ h.begun
      read := ⟨hzero, by rw [hupper]; exact hback.trans hread, hback.trans hclock⟩
      holds := hholds
      since := hsince
      covers := by
        rw [← htMs] at hcovers
        exact hcovers }
  unfold Walk.wentBack
  dsimp only
  split
  · exact hright
  · exact ⟨hright.begun, hright.read, hright.holds, hright.since, hright.covers⟩

/-- A window back is read. -/
theorem Walk.Right.gather_back {account : Account} {clockMs : ℤ} {walk : Walk}
    (h : walk.Right account clockMs) {items : List Item}
    (hitems : account.Lists walk.windowBack items) (trader : ProtoOATrader) :
    ((walk.gather items).wentBack walk.windowBack.fromMs trader).Right account clockMs := by
  obtain ⟨-, hback⟩ := walk.windowBack_from h
  refine h.wentBack trader (walk.kept_gather items) (Walk.holds_gather hitems.ours h.holds) ?_ ?_
  · exact Walk.since_gather hitems.since fun key found hfound => hback.trans (h.since key found hfound)
  intro hfailure change hchange hfrom hbefore
  obtain ⟨hwalk, hstated⟩ := Walk.changes_of_gather hfailure
  by_cases hcovered : walk.coveredFromMs ≤ change.tsMs
  · exact (h.covers hwalk change hchange hcovered hbefore).gather h.holds hitems.ours
  · obtain ⟨item, hitem, -, htime, hstates⟩ := account.listed change hchange
    have hlisted : item ∈ items :=
      hitems.all item hitem (htime ▸ hfrom) (htime ▸ not_le.mp hcovered)
    obtain ⟨found, hfound⟩ := hstated item hlisted
    obtain ⟨statement, rfl, hstatement⟩ := hstates found hfound
    exact ⟨item.key, statement, Walk.get?_of_mem hitems.ours hfailure hlisted hfound, hstatement⟩

/-- A deal list of a window back did not end. -/
theorem Walk.Right.incomplete_back {account : Account} {clockMs : ℤ} {walk : Walk}
    (h : walk.Right account clockMs) (trader : ProtoOATrader) :
    (walk.incomplete.wentBack walk.windowBack.fromMs trader).Right account clockMs := by
  obtain ⟨-, hback⟩ := walk.windowBack_from h
  refine h.wentBack trader ⟨rfl, rfl, rfl, rfl⟩ h.holds ?_ fun hfailure => ?_
  · exact fun key found hfound => hback.trans (h.since key found hfound)
  · exact absurd hfailure (Option.some_ne_none _)

/-- A walk stays right while the account goes on. -/
theorem Walk.Right.grows {account later : Account} {clockMs : ℤ} {walk : Walk}
    (h : walk.Right account clockMs) (hgrows : account.Grows clockMs later) :
    walk.Right later clockMs where
  begun := h.begun
  read := h.read
  holds key found hfound := by
    obtain ⟨item, hitem, hstates⟩ := h.holds key found hfound
    exact ⟨item, hgrows.mem_items hitem, hstates⟩
  since := h.since
  covers hfailure change hchange hfrom hbefore := by
    rcases hgrows.new_change hchange with hold | hlate
    · exact h.covers hfailure change hold hfrom hbefore
    · have := h.begun
      omega

/-- A walk stays right as the clock goes forward. -/
theorem Walk.Right.later {account : Account} {clockMs laterMs : ℤ} {walk : Walk}
    (h : walk.Right account clockMs) (hlater : clockMs ≤ laterMs) : walk.Right account laterMs where
  begun := h.begun.trans hlater
  read := ⟨h.read.1, h.read.2.1, h.read.2.2.trans hlater⟩
  holds := h.holds
  since := h.since
  covers := h.covers

/-! ## The value of a right walk -/

/-- An available balance made of changes the ledger states, all of those from `coveredFromMs` to the
checkpoint among them, is the balance the ledger had there. -/
theorem balance_of_right {ledger : Ledger} {t coveredFromMs : ℤ} {changes : List BalanceChange}
    (hours : ∀ found ∈ changes, coveredFromMs ≤ found.tsMs ∧
      ∃ change ∈ ledger.changes, States found change)
    (hcovers : ∀ change ∈ ledger.changes, coveredFromMs ≤ change.tsMs → change.tsMs < t →
      ∃ found ∈ changes, States found change)
    {registrationMs : Option ℤ} (hregistration : ∀ registered ∈ registrationMs,
      registered = ledger.registrationMs)
    {trader : Trader} {reachedCap : Bool} {value : CheckpointValue}
    (h : balanceAt t changes coveredFromMs registrationMs trader reachedCap = .value value)
    (havailable : value.status = .available) :
    value.balance = some (ledger.balanceBefore t) := by
  obtain ⟨ordered, hordered, hcases⟩ := balanceAt_available h havailable
  have hmem := mem_byVersion hordered
  rcases hcases with ⟨anchor, after, hlast, hbalance, -⟩ |
    ⟨hnone, hbalance, -, -, registered, hgiven, -, hreached⟩
  · obtain ⟨hbefore, earlier, hsplit, hafter⟩ := lastBefore_eq_some hlast
    have hanchor : anchor ∈ ordered := by
      rw [hsplit]
      simp
    obtain ⟨hsince, change, hchange, hstates⟩ := hours anchor ((hmem anchor).mp hanchor)
    have hincrease := byVersion_increases hordered
    rw [hsplit] at hincrease
    obtain ⟨-, -, hcross⟩ := List.pairwise_append.mp hincrease
    -- A later change before the checkpoint would have been read too, and follow the anchor.
    have hlater : ∀ later ∈ ledger.changes, change.version < later.version → t ≤ later.tsMs := by
      intro later hlater hversion
      by_contra hearly
      have htime := ledger.tsMs_le hchange hlater hversion
      rw [← hstates.tsMs] at htime
      obtain ⟨found, hfound, hstated⟩ := hcovers later hlater (hsince.trans htime) (not_le.mp hearly)
      have hread := (hmem found).mpr hfound
      rw [← hstates.version, ← hstated.version] at hversion
      rw [← hstated.tsMs] at hearly
      rw [hsplit] at hread
      rcases List.mem_append.mp hread with hbehind | hahead
      · have := hcross found hbehind anchor List.mem_cons_self
        omega
      · rcases List.mem_cons.mp hahead with rfl | hahead
        · omega
        · exact hearly (hafter found hahead)
    rw [hbalance, hstates.balance, ledger.balanceBefore_of_last hchange (hstates.tsMs ▸ hbefore) hlater]
  · have hall : ∀ change ∈ ledger.changes, t ≤ change.tsMs := by
      intro change hchange
      by_contra hearly
      have hregistered := ledger.registered change hchange
      have hknown := hregistration registered hgiven
      obtain ⟨found, hfound, hstates⟩ := hcovers change hchange (by omega) (not_le.mp hearly)
      have hlate := lastBefore_eq_none hnone found ((hmem found).mpr hfound)
      rw [hstates.tsMs] at hlate
      exact hearly hlate
    rw [hbalance, ledger.balanceBefore_of_none hall]

/-- The registration a trader gives, if it does, is the account's. -/
def Account.Registers (account : Account) (trader : ProtoOATrader) : Prop :=
  ∀ registered ∈ registration trader, registered = account.ledger.registrationMs

/-- Changes that link up do not fail for their scales. -/
theorem links_ne_mixedScales (trader : Trader) (balance : ℤ) (version : Option ℤ)
    (after : List BalanceChange) : links trader balance version after ≠ some .mixedScales := by
  induction after generalizing balance version with
  | nil =>
    unfold links
    split <;> simp
  | cons change rest ih =>
    unfold links
    split
    · simp
    split
    · simp
    split
    · simp
    · exact ih change.balance (some change.version)

/-- Nor does a chain of them. -/
theorem chain_ne_mixedScales (trader : Trader) (balance : ℤ) (version : Option ℤ)
    (after : List BalanceChange) : chain trader balance version after ≠ some .mixedScales := by
  unfold chain
  split
  · simp
  · exact links_ne_mixedScales trader balance version after

/-- A value of the rule is that of mixed scales, which states no deposit, or one of `result`. -/
theorem balanceAt_cases {t coveredFromMs : ℤ} {changes : List BalanceChange}
    {registrationMs : Option ℤ} {trader : Trader} {reachedCap : Bool} {value : CheckpointValue}
    (h : balanceAt t changes coveredFromMs registrationMs trader reachedCap = .value value) :
    value = ⟨.unavailable, some t, none, some .mixedScales, none, some trader.moneyDigits⟩ ∨
      ∃ deposit balance reason, reason ≠ some .mixedScales ∧
        value = result t deposit trader balance reason := by
  unfold balanceAt at h
  split at h
  · exact .inl (Answer.value.inj h).symm
  right
  dsimp only at h
  split at h
  · exact ⟨_, _, _, by simp, (Answer.value.inj h).symm⟩
  split at h
  · exact ⟨_, _, _, chain_ne_mixedScales _ _ _ _, (Answer.value.inj h).symm⟩
  split at h
  · exact ⟨_, _, _, by simp, (Answer.value.inj h).symm⟩
  split at h
  · exact ⟨_, _, _, by simp, (Answer.value.inj h).symm⟩
  split at h
  · split at h
    · exact ⟨_, _, _, by simp, (Answer.value.inj h).symm⟩
    · cases h
  split at h
  · cases h
  split at h
  · exact ⟨_, _, _, by simp, (Answer.value.inj h).symm⟩
  · exact ⟨_, _, _, chain_ne_mixedScales _ _ _ _, (Answer.value.inj h).symm⟩

/-- A walk's value is one without a balance and a deposit, or one of the rule. -/
theorem Walk.value_cases {walk : Walk} {trader : ProtoOATrader} {value : CheckpointValue}
    (h : walk.value trader = some value) :
    (∃ reason, value = ⟨.unavailable, some walk.tMs, none, some reason, none, trader.moneyDigits?⟩) ∨
      walk.failure = none ∧ ∃ rule reachedCap, balanceAt walk.tMs walk.changes.values
        walk.coveredFromMs (registration trader) rule reachedCap = .value value := by
  unfold Walk.value at h
  split at h
  · exact .inl ⟨_, (Option.some.inj h).symm⟩
  · exact .inl ⟨_, (Option.some.inj h).symm⟩
  · exact .inl ⟨_, (Option.some.inj h).symm⟩
  · rename_i hfailure _ _
    split at h
    · rename_i found hfound
      obtain rfl := Option.some.inj h
      exact .inr ⟨hfailure, _, _, hfound⟩
    · cases h

/-- The value of a walk is for its own checkpoint. -/
theorem Walk.value_checkpointMs {walk : Walk} {trader : ProtoOATrader} {value : CheckpointValue}
    (h : walk.value trader = some value) : value.checkpointMs = some walk.tMs := by
  rcases Walk.value_cases h with ⟨reason, rfl⟩ | ⟨-, rule, reachedCap, hvalue⟩
  · rfl
  · rcases balanceAt_cases hvalue with rfl | ⟨deposit, balance, reason, -, rfl⟩
    · rfl
    · cases reason <;> rfl

/-- The value of a right walk. -/
theorem Walk.Right.value {account : Account} {clockMs : ℤ} {walk : Walk}
    (h : walk.Right account clockMs) {trader : ProtoOATrader} (htrader : account.Registers trader)
    {value : CheckpointValue} (hvalue : walk.value trader = some value)
    (havailable : value.status = .available) :
    value.balance = some (account.ledger.balanceBefore walk.tMs) := by
  rcases Walk.value_cases hvalue with ⟨reason, rfl⟩ | ⟨hfailure, rule, reachedCap, hfound⟩
  · exact absurd havailable (by simp)
  refine balance_of_right (fun change hchange => ?_) (fun change hchange hfrom hbefore => ?_) htrader
    hfound havailable
  · obtain ⟨key, hheld⟩ := Dict.mem_values.mp hchange
    obtain ⟨item, hitem, -, hstates⟩ := h.holds key change hheld
    exact ⟨h.since key change hheld, account.stated item hitem change hstates⟩
  · obtain ⟨key, found, hheld, hstates⟩ := h.covers hfailure change hchange hfrom hbefore
    exact ⟨found, Dict.mem_values.mpr ⟨key, hheld⟩, hstates⟩

end BalanceHistory

end NautilusCtrader
