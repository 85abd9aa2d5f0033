import NautilusCtrader.Common.Dict
import NautilusCtrader.Common.Sorting
import NautilusCtrader.Messages

/-!
# Paged reads of the account's history

`_paged` asks a list page by page. The venue cuts a page where it likes, and the list comes in either
direction: the window left to ask is narrowed at the page's last item, whichever way the page runs.
The requests of one read are numbered, so the venue may answer the same one differently later.
-/

namespace NautilusCtrader

open Common

namespace History

/-! ## Pages -/

/-- The times a request asks for, both edges included. -/
structure Window where
  fromMs : ℤ
  toMs : ℤ
deriving DecidableEq, Repr

/-- A page of a list, and whether the list goes on. -/
structure Page (α : Type) where
  items : List α
  hasMore : Bool

variable {ρ α : Type}

/-- `_next_window`: the window left to ask after a page, narrowed at its last item; `none` if it cannot
be. -/
def nextWindow (timeOf : α → ℤ) (items : List α) (window : Window) : Option Window :=
  match items.head?, items.getLast? with
  | some first, some last =>
    let narrowed : Option Window :=
      if timeOf first < timeOf last then some ⟨timeOf last, window.toMs⟩
      else if timeOf last < timeOf first then some ⟨window.fromMs, timeOf last⟩
      else none
    narrowed.filter (· ≠ window)
  | _, _ => none

/-- The items found so far with a page's, each id's first one kept. -/
def collect (idOf : α → ℤ) (found : Dict ℤ α) (items : List α) : Dict ℤ α :=
  items.foldl (fun found item => found.setDefault (idOf item) item) found

/-- The loop of `_paged` over the pages that are left: `message` is the next request, with the window
it stands for. -/
def pages (request : ℕ → ρ → Page α) (ask : Window → ρ) (idOf timeOf : α → ℤ) :
    ℕ → ℕ → ρ → Window → Dict ℤ α → Dict ℤ α × Bool
  | 0, _, _, _, found => (found, false)
  | left + 1, number, message, current, found =>
    let page := request number message
    let found := collect idOf found page.items
    if !page.hasMore then (found, true)
    else
      match nextWindow timeOf page.items current with
      | none => (found, false)
      | some next => pages request ask idOf timeOf left (number + 1) (ask next) next found

/-- `_paged`: every item of a list asked page by page, and whether it ended. -/
def paged (request : ℕ → ρ → Page α) (ask : Window → ρ) (window : Window) (idOf timeOf : α → ℤ)
    (maxPages : ℕ) (first : Option ρ) : List α × Bool :=
  let done := pages request ask idOf timeOf maxPages 0 (first.getD (ask window)) window Dict.empty
  (done.1.values, done.2)

/-! ## The lists -/

structure ProtoOADealListReq where
  ctidTraderAccountId : ℤ
  fromTimestamp : ℤ
  toTimestamp : ℤ
deriving DecidableEq, Repr

structure ProtoOADealListByPositionIdReq where
  ctidTraderAccountId : ℤ
  positionId : ℤ
  fromTimestamp? : Option ℤ := none
  toTimestamp? : Option ℤ := none
deriving DecidableEq, Repr

structure ProtoOAOrderListReq where
  ctidTraderAccountId : ℤ
  fromTimestamp : ℤ
  toTimestamp : ℤ
deriving DecidableEq, Repr

/-- The latest time the venue takes in a request. -/
def latestMs : ℤ := 2147483646000

/-- `_oldest_first`. -/
def oldestFirst (deals : List ProtoOADeal) : List ProtoOADeal :=
  sortOn (fun deal => toLex (deal.executionTimestamp, deal.dealId)) deals

/-- The request of `deals_between` for a window. -/
def askDeals (accountId : ℤ) (window : Window) : ProtoOADealListReq :=
  ⟨accountId, window.fromMs, window.toMs⟩

/-- `deals_between`: the account's deals executed in a window, oldest first. -/
def dealsBetween (request : ℕ → ProtoOADealListReq → Page ProtoOADeal) (accountId fromMs toMs : ℤ)
    (maxPages : ℕ := 50) : List ProtoOADeal × Bool :=
  let done := paged request (askDeals accountId) ⟨fromMs, toMs⟩ ProtoOADeal.dealId
    ProtoOADeal.executionTimestamp maxPages none
  (oldestFirst done.1, done.2)

/-- The request of `position_deals` for a window. -/
def askPositionDeals (accountId positionId : ℤ) (window : Window) : ProtoOADealListByPositionIdReq where
  ctidTraderAccountId := accountId
  positionId
  fromTimestamp? := some window.fromMs
  toTimestamp? := some window.toMs

/-- The first request of `position_deals`, without a window. -/
def askFirstDeals (accountId positionId : ℤ) : ProtoOADealListByPositionIdReq where
  ctidTraderAccountId := accountId
  positionId

/-- `position_deals`: every deal of one position, oldest first. -/
def positionDeals (request : ℕ → ProtoOADealListByPositionIdReq → Page ProtoOADeal)
    (accountId positionId : ℤ) (maxPages : ℕ := 20) : List ProtoOADeal × Bool :=
  let done := paged request (askPositionDeals accountId positionId) ⟨0, latestMs⟩
    ProtoOADeal.dealId ProtoOADeal.executionTimestamp maxPages
    (some (askFirstDeals accountId positionId))
  (oldestFirst done.1, done.2)

/-- The request of `orders_between` for a window. -/
def askOrders (accountId : ℤ) (window : Window) : ProtoOAOrderListReq :=
  ⟨accountId, window.fromMs, window.toMs⟩

/-- `orders_between`: the account's orders last changed in a window, oldest first, as far as
`maxPages` reached. -/
def ordersBetween (request : ℕ → ProtoOAOrderListReq → Page ProtoOAOrder)
    (accountId fromMs toMs : ℤ) (maxPages : ℕ := 50) : List ProtoOAOrder :=
  let done := paged request (askOrders accountId) ⟨fromMs, toMs⟩ ProtoOAOrder.orderId
    ProtoOAOrder.utcLastUpdateTimestamp maxPages none
  sortOn (fun order => toLex (order.utcLastUpdateTimestamp, order.orderId)) done.1

/-! ## The venue -/

/-- The items of a window. -/
def within (timeOf : α → ℤ) (window : Window) (items : List α) : List α :=
  items.filter fun item => window.fromMs ≤ timeOf item && timeOf item ≤ window.toMs

/-- A page of a list of `listed`: they come monotone in time, in either direction and ties in any
order, and the page is cut where it says that the list goes on. -/
def PageOf (timeOf : α → ℤ) (listed : List α) (page : Page α) : Prop :=
  ∃ rest, (page.items ++ rest).Perm listed ∧ (page.hasMore = true ↔ rest ≠ []) ∧
    ((page.items ++ rest).Pairwise (fun item later => timeOf item ≤ timeOf later) ∨
      (page.items ++ rest).Pairwise (fun item later => timeOf later ≤ timeOf item))

/-- The venue answers every request with a page of its window's items. A first request without a
window lists everything the whole window takes in. -/
structure Answers (timeOf : α → ℤ) (items : List α) (request : ℕ → ρ → Page α) (ask : Window → ρ)
    (window : Window) (first : Option ρ) : Prop where
  asked (number : ℕ) (current : Window) :
    PageOf timeOf (within timeOf current items) (request number (ask current))
  everything : ∀ message ∈ first, PageOf timeOf (within timeOf window items) (request 0 message)

/-- Whether a time lies in a window. -/
def Window.Holds (window : Window) (ms : ℤ) : Prop := window.fromMs ≤ ms ∧ ms ≤ window.toMs

/-- The items of a window are those dated in it. -/
theorem mem_within {timeOf : α → ℤ} {window : Window} {items : List α} {item : α} :
    item ∈ within timeOf window items ↔ item ∈ items ∧ window.Holds (timeOf item) := by
  rw [within, List.mem_filter, Bool.and_eq_true, decide_eq_true_eq, decide_eq_true_eq, Window.Holds]

/-! ## One page

A page that is cut leaves only items behind its last one, in the direction it runs; the narrowed window
starts or ends at that item's own time, so it takes them all in. -/

/-- What `nextWindow` narrows a window to. -/
theorem nextWindow_cases {timeOf : α → ℤ} {items : List α} {window next : Window}
    (h : nextWindow timeOf items window = some next) :
    ∃ first last, items.head? = some first ∧ items.getLast? = some last ∧
      (timeOf first < timeOf last ∧ next = ⟨timeOf last, window.toMs⟩ ∨
        timeOf last < timeOf first ∧ next = ⟨window.fromMs, timeOf last⟩) := by
  unfold nextWindow at h
  cases hfirst : items.head? with
  | none => simp only [hfirst, reduceCtorEq] at h
  | some first =>
    cases hlast : items.getLast? with
    | none => simp only [hfirst, hlast, reduceCtorEq] at h
    | some last =>
      simp only [hfirst, hlast] at h
      have hnarrowed := (Option.filter_eq_some_iff.mp h).1
      refine ⟨first, last, rfl, rfl, ?_⟩
      split at hnarrowed
      · rename_i hup
        exact .inl ⟨hup, (Option.some.inj hnarrowed).symm⟩
      split at hnarrowed
      · rename_i hdown
        exact .inr ⟨hdown, (Option.some.inj hnarrowed).symm⟩
      · exact nomatch hnarrowed

/-- The first item of a page is the last one or comes before it. -/
theorem first_before_last {R : α → α → Prop} {items : List α} {first last : α}
    (h : items.Pairwise R) (hfirst : items.head? = some first) (hlast : items.getLast? = some last) :
    first = last ∨ R first last := by
  cases items with
  | nil => exact nomatch hfirst
  | cons head tail =>
    have heq : head = first := Option.some.inj hfirst
    subst heq
    have hmem : last ∈ head :: tail := List.mem_of_getLast? hlast
    rcases List.mem_cons.mp hmem with heq | htail
    · exact .inl heq.symm
    · exact .inr ((List.pairwise_cons.mp h).1 last htail)

/-- After a page that narrows the window, each item listed was on it or lies in the new window, which is
part of the old one. -/
theorem nextWindow_covers {timeOf : α → ℤ} {listed : List α} {page : Page α}
    {current next : Window} (hpage : PageOf timeOf listed page)
    (hin : ∀ item ∈ listed, current.Holds (timeOf item))
    (hnext : nextWindow timeOf page.items current = some next) :
    (∀ item ∈ listed, item ∈ page.items ∨ next.Holds (timeOf item)) ∧
      ∀ ms, next.Holds ms → current.Holds ms := by
  obtain ⟨rest, hperm, -, hsorted⟩ := hpage
  obtain ⟨first, last, hfirst, hlast, hnarrowed⟩ := nextWindow_cases hnext
  have hlistedOf {item : α} (h : item ∈ page.items ++ rest) : current.Holds (timeOf item) :=
    hin item (hperm.mem_iff.mp h)
  have hlastIn : current.Holds (timeOf last) :=
    hlistedOf (List.mem_append_left _ (List.mem_of_getLast? hlast))
  have hsplit {item : α} (h : item ∈ listed) : item ∈ page.items ∨ item ∈ rest :=
    List.mem_append.mp (hperm.mem_iff.mpr h)
  rcases hnarrowed with ⟨hup, rfl⟩ | ⟨hdown, rfl⟩
  · -- The page runs upward, so what it left out is not before its last item.
    have hmono : (page.items ++ rest).Pairwise fun item later => timeOf item ≤ timeOf later := by
      rcases hsorted with hmono | hmono
      · exact hmono
      · rcases first_before_last (List.pairwise_append.mp hmono).1 hfirst hlast with heq | hle
        · subst heq
          omega
        · omega
    constructor
    · intro item hitem
      rcases hsplit hitem with honPage | hleft
      · exact .inl honPage
      · have hafter : timeOf last ≤ timeOf item :=
          (List.pairwise_append.mp hmono).2.2 last (List.mem_of_getLast? hlast) item hleft
        exact .inr ⟨hafter, (hin item hitem).2⟩
    · intro ms hms
      exact ⟨le_trans hlastIn.1 hms.1, hms.2⟩
  · have hmono : (page.items ++ rest).Pairwise fun item later => timeOf later ≤ timeOf item := by
      rcases hsorted with hmono | hmono
      · rcases first_before_last (List.pairwise_append.mp hmono).1 hfirst hlast with heq | hle
        · subst heq
          omega
        · omega
      · exact hmono
    constructor
    · intro item hitem
      rcases hsplit hitem with honPage | hleft
      · exact .inl honPage
      · have hafter : timeOf item ≤ timeOf last :=
          (List.pairwise_append.mp hmono).2.2 last (List.mem_of_getLast? hlast) item hleft
        exact .inr ⟨(hin item hitem).1, hafter⟩
    · intro ms hms
      exact ⟨hms.1, le_trans hms.2 hlastIn.2⟩

/-! ## What is found -/

/-- What a read has found: items of the window, each under its id. -/
structure FoundIn (idOf : α → ℤ) (listed : List α) (found : Dict ℤ α) : Prop where
  named {id : ℤ} {item : α} : found.get? id = some item → idOf item = id ∧ item ∈ listed

/-- Nothing has been found at the start. -/
theorem foundIn_empty (idOf : α → ℤ) (listed : List α) :
    FoundIn idOf listed (Dict.empty : Dict ℤ α) where
  named h := by exact nomatch h

/-- Items are collected one by one, the first of an id kept. -/
theorem collect_cons (idOf : α → ℤ) (found : Dict ℤ α) (item : α) (items : List α) :
    collect idOf found (item :: items) = collect idOf (found.setDefault (idOf item) item) items := rfl

/-- A page's items are items of the list, so what is found with them is. -/
theorem foundIn_collect {idOf : α → ℤ} {listed items : List α} {found : Dict ℤ α}
    (hfound : FoundIn idOf listed found) (hitems : ∀ item ∈ items, item ∈ listed) :
    FoundIn idOf listed (collect idOf found items) := by
  induction items generalizing found with
  | nil => exact hfound
  | cons item items ih =>
    rw [collect_cons]
    refine ih ⟨fun {id other} hget => ?_⟩ fun other h => hitems other (List.mem_cons_of_mem _ h)
    rw [Dict.get?_setDefault] at hget
    split at hget
    · rename_i hid
      cases hold : found.get? id with
      | none =>
        rw [hold, Option.getD_none] at hget
        cases hget
        exact ⟨hid, hitems item List.mem_cons_self⟩
      | some held =>
        rw [hold, Option.getD_some] at hget
        cases hget
        exact hfound.named hold
    · exact hfound.named hget

/-- A page's ids are found with it, and an id once found stays found. -/
theorem exists_collect {idOf : α → ℤ} {items : List α} {found : Dict ℤ α} {id : ℤ}
    (h : (∃ item, found.get? id = some item) ∨ ∃ item ∈ items, idOf item = id) :
    ∃ item, (collect idOf found items).get? id = some item := by
  induction items generalizing found with
  | nil => exact h.resolve_right fun ⟨_, hmem, _⟩ => List.not_mem_nil hmem
  | cons item items ih =>
    rw [collect_cons]
    apply ih
    by_cases hid : idOf item = id
    · exact .inl ⟨_, by rw [Dict.get?_setDefault, if_pos hid]⟩
    · rcases h with ⟨held, hheld⟩ | ⟨other, hmem, hother⟩
      · exact .inl ⟨held, by rw [Dict.get?_setDefault, if_neg hid, hheld]⟩
      · rcases List.mem_cons.mp hmem with rfl | htail
        · exact absurd hother hid
        · exact .inr ⟨other, htail, hother⟩

/-- What is found has distinct ids. -/
theorem FoundIn.nodup {idOf : α → ℤ} {listed : List α} {found : Dict ℤ α}
    (hfound : FoundIn idOf listed found) : (found.values.map idOf).Nodup := by
  have hkeys : found.values.map idOf = found.keys := by
    rw [Dict.values, Dict.keys, List.map_map]
    refine List.map_congr_left fun entry hentry => ?_
    exact (hfound.named (Dict.get?_eq_some.mpr hentry)).1
  rw [hkeys]
  exact found.nodup

/-- With distinct ids, a list all of whose items were found is what was found. -/
theorem values_perm {idOf : α → ℤ} {listed : List α} {found : Dict ℤ α}
    (hids : (listed.map idOf).Nodup) (hfound : FoundIn idOf listed found)
    (hall : ∀ item ∈ listed, ∃ other, found.get? (idOf item) = some other) :
    found.values.Perm listed := by
  refine (List.perm_ext_iff_of_nodup (List.Nodup.of_map _ hfound.nodup) (List.Nodup.of_map _ hids)).mpr ?_
  intro item
  constructor
  · intro hmem
    obtain ⟨id, hget⟩ := Dict.mem_values.mp hmem
    exact (hfound.named hget).2
  · intro hmem
    obtain ⟨other, hother⟩ := hall item hmem
    obtain ⟨hid, hlisted⟩ := hfound.named hother
    have hsame : other = item := List.inj_on_of_nodup_map hids hlisted hmem hid
    exact Dict.mem_values.mpr ⟨idOf item, hsame ▸ hother⟩

/-! ## The whole read

Between two pages every item of the window was found or lies in the window still to ask. -/

/-- What holds before each page: the next request is answered with the items of `current`, and the
others of the window were found. -/
structure Reading (idOf timeOf : α → ℤ) (items : List α) (window current : Window)
    (found : Dict ℤ α) : Prop where
  foundIn : FoundIn idOf (within timeOf window items) found
  part (ms : ℤ) : current.Holds ms → window.Holds ms
  left : ∀ item ∈ within timeOf window items,
    (∃ other, found.get? (idOf item) = some other) ∨ current.Holds (timeOf item)

/-- A page of the window still to ask is part of what the read is after. -/
theorem Reading.page {idOf timeOf : α → ℤ} {items : List α} {window current : Window}
    {found : Dict ℤ α} (h : Reading idOf timeOf items window current found) {page : Page α}
    (hpage : PageOf timeOf (within timeOf current items) page) :
    FoundIn idOf (within timeOf window items) (collect idOf found page.items) := by
  refine foundIn_collect h.foundIn fun item hitem => ?_
  obtain ⟨rest, hperm, -⟩ := hpage
  have hlisted := mem_within.mp (hperm.mem_iff.mp (List.mem_append_left rest hitem))
  exact mem_within.mpr ⟨hlisted.1, h.part _ hlisted.2⟩

/-- After the last page everything is found. -/
theorem Reading.ended {idOf timeOf : α → ℤ} {items : List α} {window current : Window}
    {found : Dict ℤ α} (h : Reading idOf timeOf items window current found) {page : Page α}
    (hpage : PageOf timeOf (within timeOf current items) page) (hlast : page.hasMore = false) :
    ∀ item ∈ within timeOf window items,
      ∃ other, (collect idOf found page.items).get? (idOf item) = some other := by
  intro item hitem
  obtain ⟨rest, hperm, hcut, -⟩ := hpage
  have hrest : rest = [] := by
    by_contra hne
    exact Bool.false_ne_true (hlast.symm.trans (hcut.mpr hne))
  rw [hrest, List.append_nil] at hperm
  apply exists_collect
  rcases h.left item hitem with hfound | hleft
  · exact .inl hfound
  · have hlisted : item ∈ within timeOf current items :=
      mem_within.mpr ⟨(mem_within.mp hitem).1, hleft⟩
    exact .inr ⟨item, hperm.mem_iff.mpr hlisted, rfl⟩

/-- A page that narrows the window keeps the reading. -/
theorem Reading.narrowed {idOf timeOf : α → ℤ} {items : List α} {window current next : Window}
    {found : Dict ℤ α} (h : Reading idOf timeOf items window current found) {page : Page α}
    (hpage : PageOf timeOf (within timeOf current items) page)
    (hnext : nextWindow timeOf page.items current = some next) :
    Reading idOf timeOf items window next (collect idOf found page.items) where
  foundIn := h.page hpage
  part ms hms := by
    have hcovers := nextWindow_covers hpage (fun item hitem => (mem_within.mp hitem).2) hnext
    exact h.part ms (hcovers.2 ms hms)
  left item hitem := by
    have hcovers := nextWindow_covers hpage (fun item hitem => (mem_within.mp hitem).2) hnext
    rcases h.left item hitem with hfound | hleft
    · exact .inl (exists_collect (.inl hfound))
    · have hlisted : item ∈ within timeOf current items :=
        mem_within.mpr ⟨(mem_within.mp hitem).1, hleft⟩
      rcases hcovers.1 item hlisted with honPage | hin
      · exact .inl (exists_collect (.inr ⟨item, honPage, rfl⟩))
      · exact .inr hin

/-- The loop keeps to the window's items, and has found each once it reports the list ended. -/
theorem pages_sound {request : ℕ → ρ → Page α} {ask : Window → ρ} {idOf timeOf : α → ℤ}
    {items : List α} {window : Window}
    (hasked : ∀ number current, PageOf timeOf (within timeOf current items)
      (request number (ask current)))
    {left number : ℕ} {message : ρ} {current : Window} {found : Dict ℤ α}
    (hmessage : PageOf timeOf (within timeOf current items) (request number message))
    (h : Reading idOf timeOf items window current found) :
    let done := pages request ask idOf timeOf left number message current found
    FoundIn idOf (within timeOf window items) done.1 ∧
      (done.2 = true → ∀ item ∈ within timeOf window items,
        ∃ other, done.1.get? (idOf item) = some other) := by
  induction left generalizing number message current found with
  | zero => exact ⟨h.foundIn, fun hended => absurd hended Bool.false_ne_true⟩
  | succ left ih =>
    simp only [pages]
    cases hmore : (request number message).hasMore with
    | false =>
      rw [Bool.not_false, if_pos rfl]
      exact ⟨h.page hmessage, fun _ => h.ended hmessage hmore⟩
    | true =>
      rw [Bool.not_true, if_neg Bool.false_ne_true]
      cases hnext : nextWindow timeOf (request number message).items current with
      | none => exact ⟨h.page hmessage, fun hended => absurd hended Bool.false_ne_true⟩
      | some next => exact ih (hasked (number + 1) next) (h.narrowed hmessage hnext)

/-- A window repeats no id that its list does not. -/
theorem nodup_within {idOf timeOf : α → ℤ} {items : List α} (window : Window)
    (h : (items.map idOf).Nodup) : ((within timeOf window items).map idOf).Nodup :=
  h.sublist (List.filter_sublist.map idOf)

/-- A read keeps to the window's items, each once, and one that reports the list complete found them
all. -/
theorem paged_sound {request : ℕ → ρ → Page α} {ask : Window → ρ} {idOf timeOf : α → ℤ}
    {items : List α} {window : Window} {first : Option ρ} {maxPages : ℕ}
    (hids : (items.map idOf).Nodup) (hanswers : Answers timeOf items request ask window first) :
    let done := paged request ask window idOf timeOf maxPages first
    (∀ item ∈ done.1, item ∈ within timeOf window items) ∧ (done.1.map idOf).Nodup ∧
      (done.2 = true → done.1.Perm (within timeOf window items)) := by
  have hstart : Reading idOf timeOf items window window Dict.empty :=
    { foundIn := foundIn_empty idOf _
      part := fun _ hms => hms
      left := fun item hitem => .inr (mem_within.mp hitem).2 }
  have hmessage : PageOf timeOf (within timeOf window items)
      (request 0 (first.getD (ask window))) := by
    cases hfirst : first with
    | none => exact hanswers.asked 0 window
    | some message => exact hanswers.everything message hfirst
  have hpages := @pages_sound _ _ request ask idOf timeOf items window hanswers.asked maxPages
  obtain ⟨hfound, hended⟩ := hpages hmessage hstart
  refine ⟨fun item hitem => ?_, hfound.nodup, fun hcomplete =>
    values_perm (nodup_within window hids) hfound (hended hcomplete)⟩
  obtain ⟨id, hget⟩ := Dict.mem_values.mp hitem
  exact (hfound.named hget).2

/-! ## The lists, sorted -/

/-- Sorted by time and id, each deal once. -/
def OldestFirst (deals : List ProtoOADeal) : Prop :=
  deals.Pairwise fun deal later =>
    toLex (deal.executionTimestamp, deal.dealId) < toLex (later.executionTimestamp, later.dealId)

/-- Items of distinct ids are sorted strictly by time and id. -/
theorem sorted_strictly {idOf timeOf : α → ℤ} {items : List α} (h : (items.map idOf).Nodup) :
    (sortOn (fun item => toLex (timeOf item, idOf item)) items).Pairwise fun item later =>
      toLex (timeOf item, idOf item) < toLex (timeOf later, idOf later) := by
  have hnodup : ((sortOn (fun item => toLex (timeOf item, idOf item)) items).map idOf).Nodup :=
    ((sortOn_perm _ items).map _).nodup_iff.mpr h
  have hsorted := sortOn_pairwise (fun item => toLex (timeOf item, idOf item)) items
  refine (hsorted.and (List.pairwise_map.mp hnodup)).imp fun {item later} hboth => ?_
  refine lt_of_le_of_ne hboth.1 fun heq => hboth.2 ?_
  exact congrArg (fun key => (ofLex key).2) heq

/-- Deals of distinct ids are sorted strictly. -/
theorem oldestFirst_sorted {deals : List ProtoOADeal} (h : (deals.map ProtoOADeal.dealId).Nodup) :
    OldestFirst (oldestFirst deals) := sorted_strictly h

/-- A read of deals that reports them complete returns exactly the window's deals, oldest first. -/
theorem oldestFirst_sound {deals listed : List ProtoOADeal}
    (hids : (listed.map ProtoOADeal.dealId).Nodup) (hperm : deals.Perm listed) :
    (oldestFirst deals).Perm listed ∧ OldestFirst (oldestFirst deals) := by
  have hnodup : (deals.map ProtoOADeal.dealId).Nodup := (hperm.map _).nodup_iff.mpr hids
  exact ⟨(sortOn_perm _ deals).trans hperm, oldestFirst_sorted hnodup⟩

/-! ## Completeness

A page that narrows the window leaves its first item behind, so as long as no page is of one millisecond
only the list ends, if the pages asked outnumber its items. -/

/-- The narrowed window leaves the page's first item out. -/
theorem within_narrower {timeOf : α → ℤ} {items : List α} {current next : Window} {page : Page α}
    (hpage : PageOf timeOf (within timeOf current items) page)
    (hnext : nextWindow timeOf page.items current = some next) :
    (within timeOf next items).length < (within timeOf current items).length := by
  have hcovers := nextWindow_covers hpage (fun item hitem => (mem_within.mp hitem).2) hnext
  obtain ⟨first, last, hfirst, -, hnarrowed⟩ := nextWindow_cases hnext
  obtain ⟨rest, hperm, -⟩ := hpage
  have hmem : first ∈ within timeOf current items :=
    hperm.mem_iff.mp (List.mem_append_left rest (List.mem_of_head? hfirst))
  have hout : ¬ next.Holds (timeOf first) := by
    rcases hnarrowed with ⟨hup, rfl⟩ | ⟨hdown, rfl⟩
    · exact fun h => absurd h.1 (not_le.mpr hup)
    · exact fun h => absurd h.2 (not_le.mpr hdown)
  have hsub : within timeOf next items = within timeOf next (within timeOf current items) := by
    unfold within
    rw [List.filter_filter]
    refine List.filter_congr fun item _ => ?_
    have himp := hcovers.2 (timeOf item)
    simp only [Window.Holds] at himp
    grind
  rw [hsub]
  refine lt_of_le_of_ne (List.length_filter_le _ _) fun heq => hout ?_
  have hall := List.length_filter_eq_length_iff.mp heq first hmem
  rw [Bool.and_eq_true, decide_eq_true_eq, decide_eq_true_eq] at hall
  exact hall

/-- A read whose cut pages all narrow their window ends within as many pages as there are items, and
one more. -/
theorem paged_complete {request : ℕ → ρ → Page α} {ask : Window → ρ} {idOf timeOf : α → ℤ}
    {items : List α} {window : Window} {maxPages : ℕ}
    (hanswers : Answers timeOf items request ask window none)
    (hnarrows : ∀ number current, (request number (ask current)).hasMore = true →
      (nextWindow timeOf (request number (ask current)).items current).isSome)
    (hpages : (within timeOf window items).length < maxPages) :
    (paged request ask window idOf timeOf maxPages none).2 = true := by
  have hloop : ∀ left number current (found : Dict ℤ α),
      (within timeOf current items).length < left →
      (pages request ask idOf timeOf left number (ask current) current found).2 = true := by
    intro left
    induction left with
    | zero =>
      intro number current found hleft
      omega
    | succ left ih =>
      intro number current found hleft
      simp only [pages]
      cases hmore : (request number (ask current)).hasMore with
      | false => rfl
      | true =>
        rw [Bool.not_true, if_neg Bool.false_ne_true]
        obtain ⟨next, hnext⟩ := Option.isSome_iff_exists.mp (hnarrows number current hmore)
        rw [hnext]
        have hless := within_narrower (hanswers.asked number current) hnext
        exact ih (number + 1) next _ (by omega)
  exact hloop maxPages 0 window Dict.empty hpages

/-! ## A venue that lists the newest first -/

/-- A page of a venue that lists a window's items in the order of `items`, `size` on each page. -/
def newestFirst (size : ℕ) (timeOf : α → ℤ) (items : List α) (windowOf : ρ → Window) (_number : ℕ)
    (message : ρ) : Page α where
  items := (within timeOf (windowOf message) items).take size
  hasMore := decide (size < (within timeOf (windowOf message) items).length)

/-- Such a venue answers every request with a page of its window's items. -/
theorem answers_newestFirst {timeOf : α → ℤ} {items : List α} {windowOf : ρ → Window}
    {ask : Window → ρ} {window : Window} {first : Option ρ} (size : ℕ)
    (hsorted : items.Pairwise fun item later => timeOf later ≤ timeOf item)
    (hask : ∀ current, windowOf (ask current) = current)
    (hfirst : ∀ message ∈ first, windowOf message = window) :
    Answers timeOf items (newestFirst size timeOf items windowOf) ask window first := by
  have hpage (number : ℕ) (message : ρ) : PageOf timeOf (within timeOf (windowOf message) items)
      (newestFirst size timeOf items windowOf number message) := by
    refine ⟨(within timeOf (windowOf message) items).drop size, ?_, ?_, .inr ?_⟩
    · simp [newestFirst]
    · simp [newestFirst]
    · simp only [newestFirst, List.take_append_drop]
      exact hsorted.sublist List.filter_sublist
  exact {
    asked := fun number current => by
      have hcurrent := hpage number (ask current)
      rwa [hask] at hcurrent
    everything := fun message hmessage => by
      have hwhole := hpage 0 message
      rwa [hfirst message hmessage] at hwhole }

/-- Where no two items share a millisecond, its cut pages of two items or more narrow the window. -/
theorem newestFirst_narrows {timeOf : α → ℤ} {items : List α} {windowOf : ρ → Window}
    {ask : Window → ρ} {size : ℕ} (hsize : 2 ≤ size)
    (hsorted : items.Pairwise fun item later => timeOf later < timeOf item)
    (hask : ∀ current, windowOf (ask current) = current) (number : ℕ) (current : Window)
    (hmore : (newestFirst size timeOf items windowOf number (ask current)).hasMore = true) :
    (nextWindow timeOf (newestFirst size timeOf items windowOf number (ask current)).items
      current).isSome := by
  unfold newestFirst at hmore ⊢
  rw [hask] at hmore ⊢
  dsimp only at hmore ⊢
  have hlisted : (within timeOf current items).Pairwise fun item later => timeOf later < timeOf item :=
    hsorted.sublist List.filter_sublist
  have hholds : ∀ item ∈ within timeOf current items, current.Holds (timeOf item) :=
    fun item hitem => (mem_within.mp hitem).2
  have hlength := of_decide_eq_true hmore
  generalize within timeOf current items = listed at hlisted hholds hlength
  match listed, size, hsize with
  | first :: second :: rest, size + 2, _ =>
    obtain ⟨last, hlast⟩ : ∃ last, ((first :: second :: rest).take (size + 2)).getLast? = some last :=
      Option.isSome_iff_exists.mp (by simp)
    have hmem : last ∈ second :: rest.take size := by
      rw [List.take_succ_cons, List.take_succ_cons, List.getLast?_cons_cons] at hlast
      exact List.mem_of_getLast? hlast
    have hbehind : timeOf last < timeOf first := by
      refine (List.pairwise_cons.mp hlisted).1 last ?_
      rcases List.mem_cons.mp hmem with rfl | hrest
      · exact List.mem_cons_self
      · exact List.mem_cons_of_mem _ (List.mem_of_mem_take hrest)
    have hfirst := (hholds first List.mem_cons_self).2
    have hnarrower : (⟨current.fromMs, timeOf last⟩ : Window) ≠ current := by
      intro heq
      have hedge : timeOf last = current.toMs := congrArg Window.toMs heq
      omega
    unfold nextWindow
    rw [hlast, List.take_succ_cons, List.head?_cons]
    dsimp only
    rw [if_neg (not_lt.mpr hbehind.le), if_pos hbehind]
    simp [Option.filter, hnarrower]
  | [], _, _ => simp at hlength
  | [_], size + 2, _ => simp at hlength

/-! ## Every read -/

/-- Every read ends, and where it reports its list complete the result is exactly the items of the
window, each once; the deals come sorted by time and id. -/
theorem reads_sound :
    (∀ {ρ α : Type} (request : ℕ → ρ → Page α) (ask : Window → ρ) (idOf timeOf : α → ℤ)
      (items : List α) (window : Window) (maxPages : ℕ) (first : Option ρ),
      (items.map idOf).Nodup → Answers timeOf items request ask window first →
      (paged request ask window idOf timeOf maxPages first).2 = true →
      (paged request ask window idOf timeOf maxPages first).1.Perm (within timeOf window items)) ∧
    (∀ (request : ℕ → ProtoOADealListReq → Page ProtoOADeal) (deals : List ProtoOADeal)
      (accountId fromMs toMs : ℤ) (maxPages : ℕ), (deals.map ProtoOADeal.dealId).Nodup →
      Answers ProtoOADeal.executionTimestamp deals request (askDeals accountId) ⟨fromMs, toMs⟩ none →
      (dealsBetween request accountId fromMs toMs maxPages).2 = true →
      (dealsBetween request accountId fromMs toMs maxPages).1.Perm
          (within ProtoOADeal.executionTimestamp ⟨fromMs, toMs⟩ deals) ∧
        OldestFirst (dealsBetween request accountId fromMs toMs maxPages).1) ∧
    ∀ (request : ℕ → ProtoOADealListByPositionIdReq → Page ProtoOADeal) (deals : List ProtoOADeal)
      (accountId positionId : ℤ) (maxPages : ℕ), (deals.map ProtoOADeal.dealId).Nodup →
      Answers ProtoOADeal.executionTimestamp deals request (askPositionDeals accountId positionId)
        ⟨0, latestMs⟩ (some (askFirstDeals accountId positionId)) →
      (positionDeals request accountId positionId maxPages).2 = true →
      (positionDeals request accountId positionId maxPages).1.Perm
          (within ProtoOADeal.executionTimestamp ⟨0, latestMs⟩ deals) ∧
        OldestFirst (positionDeals request accountId positionId maxPages).1 := by
  refine ⟨?_, ?_, ?_⟩
  · intro ρ α request ask idOf timeOf items window maxPages first hids hanswers hcomplete
    exact (paged_sound hids hanswers).2.2 hcomplete
  · intro request deals accountId fromMs toMs maxPages hids hanswers hcomplete
    exact oldestFirst_sound (nodup_within _ hids) ((paged_sound hids hanswers).2.2 hcomplete)
  · intro request deals accountId positionId maxPages hids hanswers hcomplete
    exact oldestFirst_sound (nodup_within _ hids) ((paged_sound hids hanswers).2.2 hcomplete)

/-- A deal with an id and a time. -/
def dealAt (dealId executionTimestamp : ℤ) : ProtoOADeal :=
  { dealId, orderId := 5, positionId := 10, filledVolume := 100, symbolId := 1, executionTimestamp,
    tradeSide := .buy }

/-- Four deals, two of one millisecond, the newest first. -/
def fourDeals : List ProtoOADeal := [dealAt 4 30, dealAt 2 20, dealAt 3 20, dealAt 1 10]

/-- The window a request for the account's deals asks for. -/
def ProtoOADealListReq.window (message : ProtoOADealListReq) : Window :=
  ⟨message.fromTimestamp, message.toTimestamp⟩

/-- The window a request for a position's deals asks for. -/
def ProtoOADealListByPositionIdReq.window (message : ProtoOADealListByPositionIdReq) : Window :=
  ⟨message.fromTimestamp?.getD 0, message.toTimestamp?.getD latestMs⟩

/-- Reads of four deals, three on each page. -/
theorem reads_sound_fourDeals :
    (paged (newestFirst 3 ProtoOADeal.executionTimestamp fourDeals ProtoOADealListReq.window)
        (askDeals 7) ⟨0, 40⟩ ProtoOADeal.dealId ProtoOADeal.executionTimestamp 50 none).1.Perm
        (within ProtoOADeal.executionTimestamp ⟨0, 40⟩ fourDeals) ∧
      ((dealsBetween (newestFirst 3 ProtoOADeal.executionTimestamp fourDeals ProtoOADealListReq.window)
          7 0 40 50).1.Perm (within ProtoOADeal.executionTimestamp ⟨0, 40⟩ fourDeals) ∧
        OldestFirst (dealsBetween (newestFirst 3 ProtoOADeal.executionTimestamp fourDeals
          ProtoOADealListReq.window) 7 0 40 50).1) ∧
      (positionDeals (newestFirst 3 ProtoOADeal.executionTimestamp fourDeals
          ProtoOADealListByPositionIdReq.window) 7 10 20).1.Perm
          (within ProtoOADeal.executionTimestamp ⟨0, latestMs⟩ fourDeals) ∧
        OldestFirst (positionDeals (newestFirst 3 ProtoOADeal.executionTimestamp fourDeals
          ProtoOADealListByPositionIdReq.window) 7 10 20).1 := by
  have hids : (fourDeals.map ProtoOADeal.dealId).Nodup := by decide
  have hsorted : fourDeals.Pairwise fun deal later =>
      later.executionTimestamp ≤ deal.executionTimestamp := by decide
  have hdeals (window : Window) : Answers ProtoOADeal.executionTimestamp fourDeals
      (newestFirst 3 ProtoOADeal.executionTimestamp fourDeals ProtoOADealListReq.window) (askDeals 7)
      window none :=
    answers_newestFirst 3 hsorted (fun _ => rfl) fun message hmessage => by cases hmessage
  have hposition : Answers ProtoOADeal.executionTimestamp fourDeals
      (newestFirst 3 ProtoOADeal.executionTimestamp fourDeals ProtoOADealListByPositionIdReq.window)
      (askPositionDeals 7 10) ⟨0, latestMs⟩ (some (askFirstDeals 7 10)) := by
    refine answers_newestFirst 3 hsorted (fun _ => rfl) fun message hmessage => ?_
    obtain rfl := Option.some.inj hmessage
    rfl
  refine ⟨?_, ?_, ?_⟩
  · exact reads_sound.1 _ _ _ _ _ _ 50 none hids (hdeals _) (by decide)
  · exact reads_sound.2.1 _ _ 7 0 40 50 hids (hdeals _) (by decide)
  · exact reads_sound.2.2 _ _ 7 10 20 hids hposition (by decide)

/-! ## Orders -/

/-- `orders_between` keeps to the orders last changed in its window, each once and oldest first. Where each
cut page narrows the window and the window has fewer orders than the pages asked for, it has all of
them. -/
theorem ordersBetween_lists (request : ℕ → ProtoOAOrderListReq → Page ProtoOAOrder)
    (orders : List ProtoOAOrder) (accountId fromMs toMs : ℤ) (maxPages : ℕ)
    (hids : (orders.map ProtoOAOrder.orderId).Nodup)
    (hanswers : Answers ProtoOAOrder.utcLastUpdateTimestamp orders request (askOrders accountId)
      ⟨fromMs, toMs⟩ none) :
    let found := ordersBetween request accountId fromMs toMs maxPages
    let listed := within ProtoOAOrder.utcLastUpdateTimestamp ⟨fromMs, toMs⟩ orders
    (∀ order ∈ found, order ∈ listed) ∧
      found.Pairwise (fun order later => toLex (order.utcLastUpdateTimestamp, order.orderId) <
        toLex (later.utcLastUpdateTimestamp, later.orderId)) ∧
      ((∀ number current, (request number (askOrders accountId current)).hasMore = true →
          (nextWindow ProtoOAOrder.utcLastUpdateTimestamp
            (request number (askOrders accountId current)).items current).isSome) →
        listed.length < maxPages → found.Perm listed) := by
  have hsound := @paged_sound _ _ request (askOrders accountId) ProtoOAOrder.orderId
    ProtoOAOrder.utcLastUpdateTimestamp orders ⟨fromMs, toMs⟩ none maxPages hids hanswers
  refine ⟨fun order horder => hsound.1 order (mem_sortOn.mp horder),
    sorted_strictly hsound.2.1, fun hnarrows hpages => ?_⟩
  exact (sortOn_perm _ _).trans (hsound.2.2 (paged_complete hanswers hnarrows hpages))

/-- An order with an id, last changed at a time. -/
def orderAt (orderId utcLastUpdateTimestamp : ℤ) : ProtoOAOrder :=
  { (default : ProtoOAOrder) with orderId, utcLastUpdateTimestamp? := some utcLastUpdateTimestamp }

/-- Three orders, the newest first. -/
def threeOrders : List ProtoOAOrder := [orderAt 3 30, orderAt 2 20, orderAt 1 10]

/-- The window a request for the account's orders asks for. -/
def ProtoOAOrderListReq.window (message : ProtoOAOrderListReq) : Window :=
  ⟨message.fromTimestamp, message.toTimestamp⟩

/-- A read of three orders, two on each page. -/
theorem ordersBetween_lists_threeOrders :
    (ordersBetween (newestFirst 2 ProtoOAOrder.utcLastUpdateTimestamp threeOrders
      ProtoOAOrderListReq.window) 7 0 40 50).Perm
      (within ProtoOAOrder.utcLastUpdateTimestamp ⟨0, 40⟩ threeOrders) := by
  have hsorted : threeOrders.Pairwise fun order later =>
      later.utcLastUpdateTimestamp < order.utcLastUpdateTimestamp := by decide
  have hanswers := @answers_newestFirst _ _ ProtoOAOrder.utcLastUpdateTimestamp threeOrders
    ProtoOAOrderListReq.window (askOrders 7) ⟨0, 40⟩ none 2 (hsorted.imp le_of_lt) (fun _ => rfl)
    fun message hmessage => by cases hmessage
  have hlists := ordersBetween_lists _ threeOrders 7 0 40 50 (by decide) hanswers
  exact hlists.2.2 (newestFirst_narrows le_rfl hsorted fun _ => rfl) (by decide)

end History

end NautilusCtrader
