import NautilusCtrader.Balance.Written

/-!
# Deal lists read while the account goes on

A deal list comes in pages, and the account goes on between them. What it adds is dated no earlier than
the read began, so a read that reports the list complete has every deal of the window from before that.
-/

namespace NautilusCtrader

open Common

namespace History

variable {ρ α : Type}

/-- The venue answers each page as the list is then. What is added between two pages is dated no earlier
than `sinceMs`. -/
structure AnswersAsItGrows (timeOf : α → ℤ) (items : ℕ → List α) (request : ℕ → ρ → Page α)
    (ask : Window → ρ) (sinceMs : ℤ) : Prop where
  kept (number : ℕ) : ∀ item ∈ items number, item ∈ items (number + 1)
  added (number : ℕ) : ∀ item ∈ items (number + 1), item ∈ items number ∨ sinceMs ≤ timeOf item
  asked (number : ℕ) (current : Window) :
    PageOf timeOf (within timeOf current (items number)) (request number (ask current))

/-- What holds before each page: the items of the window from before `sinceMs` were found or lie in the
window still to ask. -/
structure ReadingOn (idOf timeOf : α → ℤ) (listed : List α) (window current : Window) (sinceMs : ℤ)
    (found : Dict ℤ α) : Prop where
  foundIn : FoundIn idOf (within timeOf window listed) found
  part (ms : ℤ) : current.Holds ms → window.Holds ms
  left : ∀ item ∈ within timeOf window listed, timeOf item < sinceMs →
    (∃ other, found.get? (idOf item) = some other) ∨ current.Holds (timeOf item)

variable {idOf timeOf : α → ℤ} {items : ℕ → List α} {request : ℕ → ρ → Page α} {ask : Window → ρ}
  {window current : Window} {sinceMs : ℤ} {found : Dict ℤ α}

/-- What was listed stays listed. -/
theorem AnswersAsItGrows.mem_later (h : AnswersAsItGrows timeOf items request ask sinceMs)
    {number : ℕ} (more : ℕ) {item : α} (hitem : item ∈ items number) : item ∈ items (number + more) := by
  induction more with
  | zero => exact hitem
  | succ more ih => exact h.kept (number + more) item ih

/-- An item from before `sinceMs` was listed all along. -/
theorem AnswersAsItGrows.mem_earlier (h : AnswersAsItGrows timeOf items request ask sinceMs)
    {number : ℕ} (more : ℕ) {item : α} (hitem : item ∈ items (number + more))
    (hbefore : timeOf item < sinceMs) : item ∈ items number := by
  induction more with
  | zero => exact hitem
  | succ more ih =>
    rcases h.added (number + more) item hitem with hold | hlate
    · exact ih hold
    · exact absurd hlate (not_le.mpr hbefore)

/-- The loop has found each item from before `sinceMs` once it reports the list ended. -/
theorem pages_growing (h : AnswersAsItGrows timeOf items request ask sinceMs) {left number : ℕ}
    (hread : ReadingOn idOf timeOf (items (number + left)) window current sinceMs found) :
    let done := pages request ask idOf timeOf left number (ask current) current found
    FoundIn idOf (within timeOf window (items (number + left))) done.1 ∧
      (done.2 = true → ∀ item ∈ within timeOf window (items (number + left)),
        timeOf item < sinceMs → ∃ other, done.1.get? (idOf item) = some other) := by
  induction left generalizing number current found with
  | zero => exact ⟨hread.foundIn, fun hended => absurd hended Bool.false_ne_true⟩
  | succ left ih =>
    have hpage := h.asked number current
    have hours : ∀ item ∈ (request number (ask current)).items,
        item ∈ within timeOf window (items (number + (left + 1))) := by
      intro item hitem
      obtain ⟨rest, hperm, -⟩ := hpage
      obtain ⟨hmem, hholds⟩ := mem_within.mp (hperm.mem_iff.mp (List.mem_append_left rest hitem))
      exact mem_within.mpr ⟨h.mem_later (left + 1) hmem, hread.part _ hholds⟩
    have hfound := foundIn_collect hread.foundIn hours
    -- An item still to find was listed when this page was answered.
    have hthere : ∀ item ∈ within timeOf window (items (number + (left + 1))),
        timeOf item < sinceMs → current.Holds (timeOf item) →
        item ∈ within timeOf current (items number) := by
      intro item hitem hbefore hholds
      exact mem_within.mpr ⟨h.mem_earlier (left + 1) (mem_within.mp hitem).1 hbefore, hholds⟩
    simp only [pages]
    cases hmore : (request number (ask current)).hasMore with
    | false =>
      rw [Bool.not_false, if_pos rfl]
      refine ⟨hfound, fun _ item hitem hbefore => exists_collect ?_⟩
      rcases hread.left item hitem hbefore with hknown | hholds
      · exact .inl hknown
      · obtain ⟨rest, hperm, hcut, -⟩ := hpage
        have hrest : rest = [] := by
          by_contra hne
          exact Bool.false_ne_true (hmore.symm.trans (hcut.mpr hne))
        rw [hrest, List.append_nil] at hperm
        exact .inr ⟨item, hperm.mem_iff.mpr (hthere item hitem hbefore hholds), rfl⟩
    | true =>
      rw [Bool.not_true, if_neg Bool.false_ne_true]
      cases hnext : nextWindow timeOf (request number (ask current)).items current with
      | none => exact ⟨hfound, fun hended => absurd hended Bool.false_ne_true⟩
      | some next =>
        have hcovers := nextWindow_covers hpage (fun item hitem => (mem_within.mp hitem).2) hnext
        have hlast : number + (left + 1) = number + 1 + left := by omega
        rw [hlast] at hfound hread hthere ⊢
        refine ih ⟨hfound, fun ms hms => hread.part ms (hcovers.2 ms hms), fun item hitem hbefore => ?_⟩
        rcases hread.left item hitem hbefore with hknown | hholds
        · exact .inl (exists_collect (.inl hknown))
        · rcases hcovers.1 item (hthere item hitem hbefore hholds) with honPage | hin
          · exact .inl (exists_collect (.inr ⟨item, honPage, rfl⟩))
          · exact .inr hin

/-- A read keeps to the window's items, each once, and one that reports the list complete has every item
of the window from before `sinceMs`. -/
theorem paged_growing (h : AnswersAsItGrows timeOf items request ask sinceMs) (window : Window)
    (maxPages : ℕ) (hids : ((items maxPages).map idOf).Nodup) :
    let done := paged request ask window idOf timeOf maxPages none
    (∀ item ∈ done.1, item ∈ within timeOf window (items maxPages)) ∧ (done.1.map idOf).Nodup ∧
      (done.2 = true → ∀ item ∈ within timeOf window (items maxPages), timeOf item < sinceMs →
        item ∈ done.1) := by
  have hstart : ReadingOn idOf timeOf (items (0 + maxPages)) window window sinceMs Dict.empty :=
    { foundIn := foundIn_empty idOf _
      part := fun _ hms => hms
      left := fun item hitem _ => .inr (mem_within.mp hitem).2 }
  obtain ⟨hfound, hended⟩ := pages_growing h hstart
  rw [Nat.zero_add] at hfound hended
  refine ⟨fun item hitem => ?_, hfound.nodup, fun hcomplete item hitem hbefore => ?_⟩
  · obtain ⟨id, hget⟩ := Dict.mem_values.mp hitem
    exact (hfound.named hget).2
  · obtain ⟨other, hother⟩ := hended hcomplete item hitem hbefore
    obtain ⟨hid, hlisted⟩ := hfound.named hother
    have hsame : other = item :=
      List.inj_on_of_nodup_map hids (mem_within.mp hlisted).1 (mem_within.mp hitem).1 hid
    exact Dict.mem_values.mpr ⟨idOf item, hsame ▸ hother⟩

end History

namespace BalanceHistory

/-- The deals an account's items hold. -/
def Account.deals (account : Account) : List ProtoOADeal :=
  account.items.filterMap fun
    | .deal deal => some deal
    | .cashFlow _ => none

/-- The deals of an account are among its items. -/
theorem Account.mem_deals {account : Account} {deal : ProtoOADeal} :
    deal ∈ account.deals ↔ .deal deal ∈ account.items := by
  unfold Account.deals
  rw [List.mem_filterMap]
  constructor
  · rintro ⟨item, hitem, hdeal⟩
    cases item with
    | deal other =>
      obtain rfl := Option.some.inj hdeal
      exact hitem
    | cashFlow operation => cases hdeal
  · intro hitem
    exact ⟨.deal deal, hitem, rfl⟩

/-- No two deals of an account have one id. -/
theorem Account.nodup_deals (account : Account) :
    (account.deals.map fun deal => deal.dealId).Nodup := by
  have hkeys := account.keys
  unfold Account.deals
  generalize account.items = items at hkeys
  induction items with
  | nil => exact List.nodup_nil
  | cons item rest ih =>
    obtain ⟨hnew, hrest⟩ := List.nodup_cons.mp hkeys
    cases item with
    | cashFlow operation => exact ih hrest
    | deal deal =>
      refine List.nodup_cons.mpr ⟨fun hmem => hnew ?_, ih hrest⟩
      obtain ⟨other, hother, hid⟩ := List.mem_map.mp hmem
      obtain ⟨found, hfound, hdeal⟩ := List.mem_filterMap.mp hother
      cases found with
      | cashFlow operation => cases hdeal
      | deal same =>
        obtain rfl := Option.some.inj hdeal
        refine List.mem_map.mpr ⟨.deal same, hfound, ?_⟩
        show (false, same.dealId) = (false, deal.dealId)
        rw [hid]

/-- `deals_between` reads a deal list of the account, however the venue cuts and orders its pages and
whatever the account does meanwhile, as long as none of it is dated before `sinceMs`, when the read began:
it has deals of the window only, each once and oldest first, and where it reports the list complete every
one from before `sinceMs`. For a window that ends by then it is a complete deal list. -/
theorem dealsBetween_lists (accounts : ℕ → Account)
    (request : ℕ → History.ProtoOADealListReq → History.Page ProtoOADeal)
    (accountId fromMs toMs sinceMs : ℤ) (maxPages : ℕ)
    (hgrows : ∀ number, (accounts number).Grows sinceMs (accounts (number + 1)))
    (hasked : ∀ number current, History.PageOf ProtoOADeal.executionTimestamp
      (History.within ProtoOADeal.executionTimestamp current (accounts number).deals)
      (request number (History.askDeals accountId current))) :
    let done := History.dealsBetween request accountId fromMs toMs maxPages
    (∀ deal ∈ done.1, .deal deal ∈ (accounts maxPages).items ∧
        (⟨fromMs, toMs⟩ : History.Window).Holds deal.executionTimestamp) ∧
      History.OldestFirst done.1 ∧
      (done.2 = true → ∀ deal, .deal deal ∈ (accounts maxPages).items →
        (⟨fromMs, toMs⟩ : History.Window).Holds deal.executionTimestamp →
        deal.executionTimestamp < sinceMs → deal ∈ done.1) ∧
      (done.2 = true → toMs ≤ sinceMs → (accounts maxPages).ListsDeals ⟨fromMs, toMs⟩ done.1) := by
  have hanswers : History.AnswersAsItGrows ProtoOADeal.executionTimestamp
      (fun number => (accounts number).deals) request (History.askDeals accountId) sinceMs := by
    refine ⟨fun number deal hdeal => ?_, fun number deal hdeal => ?_, hasked⟩
    · exact Account.mem_deals.mpr ((hgrows number).mem_items (Account.mem_deals.mp hdeal))
    · exact ((hgrows number).new_item (Account.mem_deals.mp hdeal)).imp_left Account.mem_deals.mpr
  obtain ⟨hours, hnodup, hall⟩ := History.paged_growing hanswers ⟨fromMs, toMs⟩ maxPages
    (accounts maxPages).nodup_deals
  have hsound : ∀ deal ∈ (History.dealsBetween request accountId fromMs toMs maxPages).1,
      .deal deal ∈ (accounts maxPages).items ∧
        (⟨fromMs, toMs⟩ : History.Window).Holds deal.executionTimestamp := by
    intro deal hdeal
    obtain ⟨hmem, hholds⟩ := History.mem_within.mp (hours deal (mem_sortOn.mp hdeal))
    exact ⟨Account.mem_deals.mp hmem, hholds⟩
  have hfull : (History.dealsBetween request accountId fromMs toMs maxPages).2 = true →
      ∀ deal, .deal deal ∈ (accounts maxPages).items →
        (⟨fromMs, toMs⟩ : History.Window).Holds deal.executionTimestamp →
        deal.executionTimestamp < sinceMs →
        deal ∈ (History.dealsBetween request accountId fromMs toMs maxPages).1 := by
    intro hcomplete deal hdeal hholds hbefore
    have hin := History.mem_within.mpr ⟨Account.mem_deals.mpr hdeal, hholds⟩
    exact mem_sortOn.mpr (hall hcomplete deal hin hbefore)
  refine ⟨hsound, History.oldestFirst_sorted hnodup, hfull, fun hcomplete hends => ⟨hsound, ?_⟩⟩
  intro deal hdeal hfrom hto
  exact hfull hcomplete deal hdeal ⟨hfrom, le_of_lt hto⟩ (lt_of_lt_of_le hto hends)

/-- One loss when the list is asked, two from then on. -/
def lossComes : ℕ → Account
  | 0 => oneLoss
  | _ + 1 => twoLosses

/-- A venue that lists a whole window on one page. -/
def onePage (number : ℕ) (message : History.ProtoOADealListReq) : History.Page ProtoOADeal where
  items := History.within ProtoOADeal.executionTimestamp
    ⟨message.fromTimestamp, message.toTimestamp⟩ (lossComes number).deals
  hasMore := false

/-- The deals are dated in their order. -/
theorem lossComes_sorted (number : ℕ) : (lossComes number).deals.Pairwise fun deal later =>
    deal.executionTimestamp ≤ later.executionTimestamp := by
  cases number with
  | zero => decide
  | succ number =>
    show twoLosses.deals.Pairwise _
    decide

/-- The window ends in the future: a loss that comes meanwhile is in it, and the one from before the read
began is read. -/
theorem dealsBetween_lists_loss :
    History.dealsBetween onePage 1 0 86500000 = ([closedAt 8 86400500 50 450 2], true) ∧
      closedAt 8 86400500 50 450 2 ∈ (History.dealsBetween onePage 1 0 86500000).1 := by
  have hlists := dealsBetween_lists lossComes onePage 1 0 86500000 86401000 50
    (fun number => by
      cases number with
      | zero => exact oneLoss_grows (by decide)
      | succ number => exact .refl twoLosses _)
    (fun number current => by
      refine ⟨[], by rw [List.append_nil]; exact List.Perm.refl _, by simp [onePage], .inl ?_⟩
      rw [List.append_nil]
      exact (lossComes_sorted number).filter _)
  exact ⟨by decide, hlists.2.2.1 (by decide) _ (by decide) (by decide) (by decide)⟩

end BalanceHistory

end NautilusCtrader
