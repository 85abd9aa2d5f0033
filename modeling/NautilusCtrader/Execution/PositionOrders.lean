import NautilusCtrader.History
import Mathlib.Data.List.Perm.Subperm

/-!
# The order list of one position

`_position_orders` reads a position's orders backwards by their update time, newest first, a page at a
time. The page after a cut one starts at the update time of the last order read, so that no order of
that time is lost. A cut page whose orders all have one update time leads back to itself: the next
page brings nothing new, and the read takes the list for ended. Exactly then orders are lost without
a word (`position_orders_complete_iff`).
-/

namespace NautilusCtrader

open Common History

namespace PositionOrders

/-! ## The read -/

structure ProtoOAOrderListByPositionIdReq where
  ctidTraderAccountId : ℤ
  positionId : ℤ
  toTimestamp? : Option ℤ := none
deriving DecidableEq, Repr

/-- `_MAX_ORDER_PAGES`. -/
def maxOrderPages : ℕ := 20

/-- The orders of a page that no page before it brought. -/
def newOf (found : Dict ℤ ProtoOAOrder) (page : List ProtoOAOrder) : List ProtoOAOrder :=
  page.filter fun order => !found.contains order.orderId

/-- `found.update`. -/
def update (found : Dict ℤ ProtoOAOrder) (new : List ProtoOAOrder) : Dict ℤ ProtoOAOrder :=
  new.foldl (fun found order => found.set order.orderId order) found

/-- The loop of `_position_orders` over the pages that are left: what was found, and whether it logged
that the list did not end. -/
def orderPages (request : ℕ → ProtoOAOrderListByPositionIdReq → Page ProtoOAOrder) :
    ℕ → ℕ → ProtoOAOrderListByPositionIdReq → Dict ℤ ProtoOAOrder → Dict ℤ ProtoOAOrder × Bool
  | 0, _, _, found => (found, true)
  | left + 1, number, payload, found =>
    let response := request number payload
    let new := newOf found response.items
    let found := update found new
    if !response.hasMore || new.isEmpty then (found, false)
    else
      let toTimestamp? := (new.map ProtoOAOrder.utcLastUpdateTimestamp).min?
      orderPages request left (number + 1) { payload with toTimestamp? } found

/-- `_position_orders`: the orders of a position, and whether it logged that their list did not end. -/
def positionOrders (request : ℕ → ProtoOAOrderListByPositionIdReq → Page ProtoOAOrder)
    (accountId positionId : ℤ) : List ProtoOAOrder × Bool :=
  let done := orderPages request maxOrderPages 0 ⟨accountId, positionId, none⟩ Dict.empty
  (done.1.values, done.2)

/-! ## The venue -/

/-- The orders last updated up to and including a time. -/
def upTo (toTimestamp? : Option ℤ) (orders : List ProtoOAOrder) : List ProtoOAOrder :=
  orders.filter fun order => toTimestamp?.all (order.utcLastUpdateTimestamp ≤ ·)

/-- Orders listed newest first. -/
def NewestFirst (listing : List ProtoOAOrder) : Prop :=
  listing.Pairwise fun order later => later.utcLastUpdateTimestamp ≤ order.utcLastUpdateTimestamp

instance (listing : List ProtoOAOrder) : Decidable (NewestFirst listing) :=
  inferInstanceAs (Decidable (listing.Pairwise _))

/-- The venue answers each request with the first `size` orders of a listing, and says whether it cut
it. Orders of one update time may come in another order every time. -/
def Lists (orders : List ProtoOAOrder) (size : ℕ)
    (request : ℕ → ProtoOAOrderListByPositionIdReq → Page ProtoOAOrder) : Prop :=
  ∀ number payload, ∃ listing, listing.Perm (upTo payload.toTimestamp? orders) ∧
    NewestFirst listing ∧
    request number payload = ⟨listing.take size, decide (size < listing.length)⟩

/-! ## Where the pages start -/

/-- The update times of the orders up to a time, newest first. -/
def newestTimes (orders : List ProtoOAOrder) (toTimestamp? : Option ℤ) : List ℤ :=
  ((upTo toTimestamp? orders).map ProtoOAOrder.utcLastUpdateTimestamp).insertionSort (· ≥ ·)

/-- The update time a page starts at: the newest of all at first, then the one the page before ended
with. -/
def pageStart (orders : List ProtoOAOrder) (size : ℕ) : ℕ → Option ℤ
  | 0 => (newestTimes orders none).head?
  | number + 1 =>
    (pageStart orders size number).bind fun start => (newestTimes orders (some start))[size - 1]?

/-- A page that starts at this time is cut, and all its orders have that one update time. -/
def OneTime (orders : List ProtoOAOrder) (size : ℕ) (start : ℤ) : Prop :=
  size ≤ orders.countP (·.utcLastUpdateTimestamp = start) ∧
    size < orders.countP (·.utcLastUpdateTimestamp ≤ start)

instance (orders : List ProtoOAOrder) (size : ℕ) (start : ℤ) :
    Decidable (OneTime orders size start) := inferInstanceAs (Decidable (_ ∧ _))

/-- Some page that may be followed by another is cut and of one update time. -/
def StopsEarly (orders : List ProtoOAOrder) (size : ℕ) : Prop :=
  ∃ number < maxOrderPages - 1, ∃ start ∈ pageStart orders size number, OneTime orders size start

instance (orders : List ProtoOAOrder) (size : ℕ) : Decidable (StopsEarly orders size) :=
  inferInstanceAs (Decidable (∃ _ < _, _))

/-! ## A listing -/

variable {orders listing : List ProtoOAOrder} {size : ℕ} {start : ℤ}

/-- The orders up to a time are those not later. -/
theorem mem_upTo {order : ProtoOAOrder} :
    order ∈ upTo (some start) orders ↔ order ∈ orders ∧ order.utcLastUpdateTimestamp ≤ start := by
  rw [upTo, List.mem_filter, Option.all_some, decide_eq_true_eq]

/-- Without a time all are. -/
theorem upTo_none : upTo none orders = orders :=
  List.filter_eq_self.mpr fun _ _ => rfl

/-- A listing up to a time has as many orders as were updated by then. -/
theorem length_listing (hperm : listing.Perm (upTo (some start) orders)) :
    listing.length = orders.countP (·.utcLastUpdateTimestamp ≤ start) := by
  rw [hperm.length_eq, upTo, List.countP_eq_length_filter]
  simp only [Option.all_some]

/-- The orders of a page are not older than those left out of it. -/
theorem take_newer (hsorted : NewestFirst listing) {order left : ProtoOAOrder}
    (horder : order ∈ listing.take size) (hleft : left ∈ listing.drop size) :
    left.utcLastUpdateTimestamp ≤ order.utcLastUpdateTimestamp := by
  rw [NewestFirst, ← List.take_append_drop size listing] at hsorted
  exact (List.pairwise_append.mp hsorted).2.2 order horder left hleft

/-- The times of a listing are the update times, newest first. -/
theorem times_listing (hperm : listing.Perm (upTo (some start) orders))
    (hsorted : NewestFirst listing) :
    listing.map ProtoOAOrder.utcLastUpdateTimestamp = newestTimes orders (some start) := by
  have htimes : (listing.map ProtoOAOrder.utcLastUpdateTimestamp).Pairwise (· ≥ ·) :=
    List.pairwise_map.mpr hsorted
  have hnewest : (newestTimes orders (some start)).Pairwise (· ≥ ·) :=
    List.pairwise_insertionSort _ _
  refine List.Perm.eq_of_pairwise (fun _ _ _ _ hle hge => le_antisymm hge hle) htimes hnewest ?_
  exact (hperm.map _).trans (List.perm_insertionSort _ _).symm

/-- A cut page ends with an order none of the page is older than; the next page starts at its time. -/
theorem page_ends (hperm : listing.Perm (upTo (some start) orders)) (hsorted : NewestFirst listing)
    (hsize : 0 < size) (hcut : size < listing.length) :
    ∃ last ∈ listing.take size,
      (newestTimes orders (some start))[size - 1]? = some last.utcLastUpdateTimestamp ∧
        (∀ order ∈ listing.take size,
          last.utcLastUpdateTimestamp ≤ order.utcLastUpdateTimestamp) ∧
        ∀ left ∈ listing.drop size, left.utcLastUpdateTimestamp ≤ last.utcLastUpdateTimestamp := by
  have hlast : size - 1 < listing.length := by omega
  have hmem : listing[size - 1] ∈ listing.take size :=
    List.mem_take_iff_getElem.mpr ⟨size - 1, by omega, rfl⟩
  refine ⟨listing[size - 1], hmem, ?_, fun order horder => ?_, fun left hleft =>
    take_newer hsorted hmem hleft⟩
  · rw [← times_listing hperm hsorted, List.getElem?_map, List.getElem?_eq_getElem hlast,
      Option.map_some]
  · obtain ⟨place, hplace, rfl⟩ := List.mem_take_iff_getElem.mp horder
    rcases Nat.lt_or_ge place (size - 1) with hbefore | hat
    · exact List.pairwise_iff_getElem.mp hsorted place (size - 1) _ hlast hbefore
    · have heq : place = size - 1 := by omega
      subst heq
      exact le_refl _

/-- A cut page all of whose orders have the time it starts at is of one update time. -/
theorem oneTime_of_page (hperm : listing.Perm (upTo (some start) orders))
    (hcut : size < listing.length)
    (hall : ∀ order ∈ listing.take size, order.utcLastUpdateTimestamp = start) :
    OneTime orders size start := by
  refine ⟨?_, length_listing hperm ▸ hcut⟩
  have hpage : (listing.take size).countP (·.utcLastUpdateTimestamp = start) = size := by
    rw [List.countP_eq_length.mpr fun order horder => decide_eq_true (hall order horder),
      List.length_take]
    omega
  calc size = (listing.take size).countP (·.utcLastUpdateTimestamp = start) := hpage.symm
    _ ≤ listing.countP (·.utcLastUpdateTimestamp = start) := (List.take_sublist _ _).countP_le
    _ = (upTo (some start) orders).countP (·.utcLastUpdateTimestamp = start) := hperm.countP_eq _
    _ ≤ orders.countP (·.utcLastUpdateTimestamp = start) := List.filter_sublist.countP_le

/-- A page of one update time has no other. -/
theorem page_oneTime (hperm : listing.Perm (upTo (some start) orders))
    (hsorted : NewestFirst listing) (hone : OneTime orders size start) :
    ∀ order ∈ listing.take size, order.utcLastUpdateTimestamp = start := by
  intro order horder
  have hle : order.utcLastUpdateTimestamp ≤ start :=
    (mem_upTo.mp (hperm.mem_iff.mp (List.mem_of_mem_take horder))).2
  by_contra hne
  -- Every order left out is older still, so the page alone would hold those of the start's time.
  have hleft : (listing.drop size).countP (·.utcLastUpdateTimestamp = start) = 0 := by
    refine List.countP_eq_zero.mpr fun left hmem htime => ?_
    have holder := take_newer hsorted horder hmem
    have hstart := of_decide_eq_true htime
    omega
  have hpage : (listing.take size).countP (·.utcLastUpdateTimestamp = start) < size := by
    have hlt : (listing.take size).countP (·.utcLastUpdateTimestamp = start) <
        (listing.take size).length := by
      refine lt_of_le_of_ne List.countP_le_length fun heq => hne ?_
      exact of_decide_eq_true (List.countP_eq_length.mp heq order horder)
    exact lt_of_lt_of_le hlt (List.length_take_le _ _)
  have htotal : orders.countP (·.utcLastUpdateTimestamp = start) =
      listing.countP (·.utcLastUpdateTimestamp = start) := by
    rw [hperm.countP_eq, upTo, List.countP_filter]
    refine List.countP_congr fun other _ => ?_
    simp only [Option.all_some, decide_eq_true_eq, Bool.and_eq_true]
    omega
  have hsplit : listing.countP (·.utcLastUpdateTimestamp = start) =
      (listing.take size).countP (·.utcLastUpdateTimestamp = start) +
        (listing.drop size).countP (·.utcLastUpdateTimestamp = start) := by
    rw [← List.countP_append, List.take_append_drop]
  have hmany := hone.1
  omega

/-! ## What is found -/

/-- An order a page before brought. -/
def Found (found : Dict ℤ ProtoOAOrder) (order : ProtoOAOrder) : Prop :=
  found.get? order.orderId = some order

variable {found : Dict ℤ ProtoOAOrder} {page : List ProtoOAOrder}

/-- Nothing has been found at the start. -/
theorem not_found_empty {order : ProtoOAOrder} : ¬Found Dict.empty order := by
  intro h
  rw [Found, Dict.get?_empty] at h
  cases h

/-- Of orders with distinct ids, those not found are those whose id was not found. -/
theorem contains_iff_found (hids : (orders.map ProtoOAOrder.orderId).Nodup)
    (hfound : FoundIn ProtoOAOrder.orderId orders found) {order : ProtoOAOrder}
    (horder : order ∈ orders) : found.contains order.orderId = true ↔ Found found order := by
  rw [Dict.contains_eq_true]
  constructor
  · rintro ⟨other, hget⟩
    obtain ⟨hid, hother⟩ := hfound.named hget
    have hsame : other = order := List.inj_on_of_nodup_map hids hother horder hid
    exact hsame ▸ hget
  · exact fun h => ⟨order, h⟩

/-- What is new of a page is what was not found before. -/
theorem mem_newOf (hids : (orders.map ProtoOAOrder.orderId).Nodup)
    (hfound : FoundIn ProtoOAOrder.orderId orders found)
    (hpage : ∀ order ∈ page, order ∈ orders) {order : ProtoOAOrder} :
    order ∈ newOf found page ↔ order ∈ page ∧ ¬Found found order := by
  rw [newOf, List.mem_filter, Bool.not_eq_true', ← Bool.not_eq_true]
  refine and_congr_right fun horder => not_congr ?_
  exact contains_iff_found hids hfound (hpage order horder)

/-- What is found with new orders is orders of the position. -/
theorem foundIn_update {new : List ProtoOAOrder}
    (hfound : FoundIn ProtoOAOrder.orderId orders found) (hnew : ∀ order ∈ new, order ∈ orders) :
    FoundIn ProtoOAOrder.orderId orders (update found new) := by
  induction new generalizing found with
  | nil => exact hfound
  | cons order new ih =>
    refine ih ⟨fun {id other} hget => ?_⟩ fun other h => hnew other (List.mem_cons_of_mem _ h)
    rcases Dict.get?_set_eq_some.mp hget with ⟨hid, rfl⟩ | ⟨-, hold⟩
    · exact ⟨hid, hnew order List.mem_cons_self⟩
    · exact hfound.named hold

/-- With the new orders of a page, its orders are found and those found before. -/
theorem found_update (hids : (orders.map ProtoOAOrder.orderId).Nodup) {new : List ProtoOAOrder}
    (hfound : FoundIn ProtoOAOrder.orderId orders found) (hnew : ∀ order ∈ new, order ∈ orders)
    {order : ProtoOAOrder} :
    Found (update found new) order ↔ Found found order ∨ order ∈ new := by
  induction new generalizing found with
  | nil => exact (or_iff_left List.not_mem_nil).symm
  | cons first new ih =>
    have hfirst : first ∈ orders := hnew first List.mem_cons_self
    have hset : FoundIn ProtoOAOrder.orderId orders (found.set first.orderId first) :=
      foundIn_update hfound (fun other h => (List.mem_singleton.mp h) ▸ hfirst)
    have hstep : Found (found.set first.orderId first) order ↔
        Found found order ∨ order = first := by
      rw [Found, Dict.get?_set]
      split
      · rename_i hid
        constructor
        · exact fun h => .inr (Option.some.inj h).symm
        · rintro (h | rfl)
          · exact congrArg some (List.inj_on_of_nodup_map hids hfirst (hfound.named h).2 hid)
          · rfl
      · rename_i hid
        refine (or_iff_left fun h => hid ?_).symm
        rw [h]
    rw [List.mem_cons, ← or_assoc, ← hstep]
    exact ih hset fun other h => hnew other (List.mem_cons_of_mem _ h)

/-! ## Between two pages -/

/-- What holds before each page: the request asks for the orders up to the time the page starts at; of
those of that time fewer than a page were found, of the newer ones all, of the older ones none. -/
structure Reading (orders : List ProtoOAOrder) (size number : ℕ) (start : ℤ)
    (payload : ProtoOAOrderListByPositionIdReq) (found : Dict ℤ ProtoOAOrder) : Prop where
  starts : pageStart orders size number = some start
  exists_start : ∃ order ∈ orders, order.utcLastUpdateTimestamp = start
  asks {order : ProtoOAOrder} : order ∈ orders →
    payload.toTimestamp?.all (order.utcLastUpdateTimestamp ≤ ·) =
      decide (order.utcLastUpdateTimestamp ≤ start)
  foundIn : FoundIn ProtoOAOrder.orderId orders found
  reached {order : ProtoOAOrder} : Found found order → start ≤ order.utcLastUpdateTimestamp
  newer {order : ProtoOAOrder} : order ∈ orders → start < order.utcLastUpdateTimestamp →
    Found found order
  few {same : List ProtoOAOrder} : same.Nodup →
    (∀ order ∈ same, order.utcLastUpdateTimestamp = start ∧ Found found order) → same.length < size

/-- The first page starts at the newest update time. -/
theorem exists_newest (size : ℕ) (hsome : orders ≠ []) :
    ∃ start, pageStart orders size 0 = some start ∧
      (∃ order ∈ orders, order.utcLastUpdateTimestamp = start) ∧
      ∀ order ∈ orders, order.utcLastUpdateTimestamp ≤ start := by
  have hperm : (newestTimes orders none).Perm (orders.map ProtoOAOrder.utcLastUpdateTimestamp) := by
    rw [newestTimes, upTo_none]
    exact List.perm_insertionSort _ _
  have htimes : newestTimes orders none ≠ [] := by
    intro hnil
    rw [hnil] at hperm
    exact hsome (List.map_eq_nil_iff.mp (List.nil_perm.mp hperm))
  obtain ⟨start, rest, hstart⟩ := List.exists_cons_of_ne_nil htimes
  have hmem (ms : ℤ) : ms ∈ start :: rest ↔
      ∃ order ∈ orders, order.utcLastUpdateTimestamp = ms := by
    rw [← hstart, hperm.mem_iff, List.mem_map]
  have hsorted : (start :: rest).Pairwise (· ≥ ·) := by
    rw [← hstart]
    exact List.pairwise_insertionSort _ _
  refine ⟨start, ?_, (hmem start).mp List.mem_cons_self, fun order horder => ?_⟩
  · rw [pageStart, hstart, List.head?_cons]
  · rcases List.mem_cons.mp ((hmem _).mpr ⟨order, horder, rfl⟩) with heq | htail
    · exact le_of_eq heq
    · exact (List.pairwise_cons.mp hsorted).1 _ htail

/-- Before the first page. -/
theorem reading_first (accountId positionId : ℤ) (hsize : 0 < size) (hsome : orders ≠ []) :
    ∃ start, Reading orders size 0 start ⟨accountId, positionId, none⟩ Dict.empty := by
  obtain ⟨start, hstart, hexists, hnewest⟩ := exists_newest size hsome
  refine ⟨start, ⟨hstart, hexists, ?_, foundIn_empty _ _, ?_, ?_, ?_⟩⟩
  · exact fun {order} horder => (decide_eq_true (hnewest order horder)).symm
  · exact fun h => absurd h not_found_empty
  · intro order horder hnewer
    have hle := hnewest order horder
    omega
  · intro same _ hall
    cases same with
    | nil => exact hsize
    | cons order _ => exact absurd (hall order List.mem_cons_self).2 not_found_empty

namespace Reading

variable {number : ℕ} {payload : ProtoOAOrderListByPositionIdReq}

/-- The orders of a listing, and those of its page, are orders of the position. -/
theorem mem_of_page (hperm : listing.Perm (upTo (some start) orders)) :
    ∀ order ∈ listing.take size, order ∈ orders := fun _ horder =>
  (mem_upTo.mp (hperm.mem_iff.mp (List.mem_of_mem_take horder))).1

/-- A cut page brings something new. -/
theorem some_new (h : Reading orders size number start payload found)
    (hids : (orders.map ProtoOAOrder.orderId).Nodup)
    (hperm : listing.Perm (upTo (some start) orders)) (hcut : size < listing.length) :
    newOf found (listing.take size) ≠ [] := by
  intro hnone
  have hfound : ∀ order ∈ listing.take size, Found found order := by
    intro order horder
    by_contra hunfound
    have hnew := (mem_newOf hids h.foundIn (mem_of_page hperm)).mpr ⟨horder, hunfound⟩
    rw [hnone] at hnew
    cases hnew
  have hnodup : listing.Nodup :=
    hperm.nodup_iff.mpr ((List.Nodup.of_map _ hids).sublist List.filter_sublist)
  have hfew := h.few (hnodup.sublist (List.take_sublist size listing)) fun order horder => by
    have hle := (mem_upTo.mp (hperm.mem_iff.mp (List.mem_of_mem_take horder))).2
    have hge := h.reached (hfound order horder)
    exact ⟨by omega, hfound order horder⟩
  rw [List.length_take] at hfew
  omega

/-- After a page that ends the list everything is found. -/
theorem ended (h : Reading orders size number start payload found)
    (hids : (orders.map ProtoOAOrder.orderId).Nodup)
    (hperm : listing.Perm (upTo (some start) orders)) (hwhole : listing.length ≤ size) :
    (update found (newOf found (listing.take size))).values.Perm orders := by
  have hnew : ∀ order ∈ newOf found (listing.take size), order ∈ orders := fun order horder =>
    mem_of_page hperm order (List.mem_of_mem_filter horder)
  refine values_perm hids (foundIn_update h.foundIn hnew) fun order horder => ⟨order, ?_⟩
  refine (found_update hids h.foundIn hnew).mpr ?_
  by_cases hold : Found found order
  · exact .inl hold
  · refine .inr ((mem_newOf hids h.foundIn (mem_of_page hperm)).mpr ⟨?_, hold⟩)
    rw [List.take_of_length_le hwhole]
    have hle : order.utcLastUpdateTimestamp ≤ start := by
      by_contra hnewer
      exact hold (h.newer horder (by omega))
    exact hperm.mem_iff.mpr (mem_upTo.mpr ⟨horder, hle⟩)

/-- Among the orders up to a time that some order has, a page has one of that time. -/
theorem page_start (h : Reading orders size number start payload found) (hsize : 0 < size)
    (hperm : listing.Perm (upTo (some start) orders)) (hsorted : NewestFirst listing) :
    ∃ order ∈ listing.take size, order.utcLastUpdateTimestamp = start := by
  obtain ⟨order, horder, htime⟩ := h.exists_start
  have hlisted : order ∈ listing :=
    hperm.mem_iff.mpr (mem_upTo.mpr ⟨horder, le_of_eq htime⟩)
  rw [← List.take_append_drop size listing] at hlisted
  rcases List.mem_append.mp hlisted with honPage | hleft
  · exact ⟨order, honPage, htime⟩
  · have hpos : 0 < listing.length :=
      List.length_pos_of_mem (List.mem_of_mem_drop hleft)
    have hfirst : listing[0] ∈ listing.take size :=
      List.mem_take_iff_getElem.mpr ⟨0, by omega, rfl⟩
    have hge := take_newer hsorted hfirst hleft
    have hle := (mem_upTo.mp (hperm.mem_iff.mp (List.mem_of_mem_take hfirst))).2
    exact ⟨listing[0], hfirst, by omega⟩

/-- After a cut page that is not of one update time, the next request asks for the orders up to the
time the page ended with. -/
theorem next (h : Reading orders size number start payload found)
    (hids : (orders.map ProtoOAOrder.orderId).Nodup)
    (hperm : listing.Perm (upTo (some start) orders)) (hsorted : NewestFirst listing)
    (hcut : size < listing.length) (hnot : ¬OneTime orders size start) :
    let new := newOf found (listing.take size)
    let toTimestamp? := (new.map ProtoOAOrder.utcLastUpdateTimestamp).min?
    ∃ next, toTimestamp? = some next ∧
      Reading orders size (number + 1) next { payload with toTimestamp? } (update found new) := by
  intro new toTimestamp?
  have hsize : 0 < size := by
    rcases Nat.eq_zero_or_pos size with hzero | hpos
    · subst hzero
      exact absurd ⟨Nat.zero_le _, length_listing hperm ▸ hcut⟩ hnot
    · exact hpos
  obtain ⟨last, hlast, hnext, hoverLast, hunderLast⟩ := page_ends hperm hsorted hsize hcut
  obtain ⟨first, hfirst, hfirstTime⟩ := h.page_start hsize hperm hsorted
  have hpage : ∀ order ∈ listing.take size, order ∈ orders := mem_of_page hperm
  have hupTo {order : ProtoOAOrder} (horder : order ∈ listing.take size) :
      order.utcLastUpdateTimestamp ≤ start :=
    (mem_upTo.mp (hperm.mem_iff.mp (List.mem_of_mem_take horder))).2
  -- The page ends before the time it starts at, or it would be of one update time.
  have hearlier : last.utcLastUpdateTimestamp < start := by
    refine lt_of_le_of_ne (hupTo hlast) fun heq => hnot (oneTime_of_page hperm hcut ?_)
    intro order horder
    have hle := hupTo horder
    have hge := hoverLast order horder
    omega
  have hmemNew {order : ProtoOAOrder} : order ∈ new ↔ order ∈ listing.take size ∧
      ¬Found found order := mem_newOf hids h.foundIn hpage
  have hnewOrders : ∀ order ∈ new, order ∈ orders := fun order horder =>
    hpage order (hmemNew.mp horder).1
  have hfoundUpdate {order : ProtoOAOrder} :
      Found (update found new) order ↔ Found found order ∨ order ∈ new :=
    found_update hids h.foundIn hnewOrders
  have hlastNew : last ∈ new := by
    refine hmemNew.mpr ⟨hlast, fun hold => ?_⟩
    have hge := h.reached hold
    omega
  have hmin : toTimestamp? = some last.utcLastUpdateTimestamp := by
    refine List.min?_eq_some_iff.mpr ⟨List.mem_map_of_mem hlastNew, fun ms hms => ?_⟩
    obtain ⟨order, horder, rfl⟩ := List.mem_map.mp hms
    exact hoverLast order (hmemNew.mp horder).1
  refine ⟨last.utcLastUpdateTimestamp, hmin,
    ⟨?_, ⟨last, hpage last hlast, rfl⟩, fun _ => congrArg (Option.all _) hmin,
      foundIn_update h.foundIn hnewOrders, ?_, ?_, ?_⟩⟩
  · rw [pageStart, h.starts, Option.bind_some, hnext]
  · intro order hfound
    rcases hfoundUpdate.mp hfound with hold | hnew
    · have hge := h.reached hold
      omega
    · exact hoverLast order (hmemNew.mp hnew).1
  · intro order horder hafter
    by_cases hold : Found found order
    · exact hfoundUpdate.mpr (.inl hold)
    · refine hfoundUpdate.mpr (.inr (hmemNew.mpr ⟨?_, hold⟩))
      have hle : order.utcLastUpdateTimestamp ≤ start := by
        by_contra hnewer
        exact hold (h.newer horder (by omega))
      have hlisted : order ∈ listing := hperm.mem_iff.mpr (mem_upTo.mpr ⟨horder, hle⟩)
      rw [← List.take_append_drop size listing] at hlisted
      rcases List.mem_append.mp hlisted with honPage | hleft
      · exact honPage
      · have hunder := hunderLast order hleft
        omega
  · -- The orders found of the time the page ended with are on it, beside its first.
    intro same hnodup hall
    have hsub : first :: same ⊆ listing.take size := by
      refine List.cons_subset.mpr ⟨hfirst, fun order horder => ?_⟩
      obtain ⟨htime, hfound⟩ := hall order horder
      rcases hfoundUpdate.mp hfound with hold | hnew
      · have hge := h.reached hold
        omega
      · exact (hmemNew.mp hnew).1
    have hfresh : first ∉ same := by
      intro hmem
      have htime := (hall first hmem).1
      omega
    have hlength := ((List.nodup_cons.mpr ⟨hfresh, hnodup⟩).subperm hsub).length_le
    rw [List.length_cons, List.length_take] at hlength
    omega

end Reading

/-! ## Every listing

As long as no page is of one update time, the read goes on until the list or its pages end. -/

variable {request : ℕ → ProtoOAOrderListByPositionIdReq → Page ProtoOAOrder}
variable {number : ℕ} {payload : ProtoOAOrderListByPositionIdReq}

/-- A request of a reading asks for the orders up to the time its page starts at. -/
theorem Reading.upTo_eq (h : Reading orders size number start payload found)
    (hlisted : ∀ order ∈ listing, order ∈ orders) :
    upTo payload.toTimestamp? listing = upTo (some start) listing :=
  List.filter_congr fun order horder => h.asks (hlisted order horder)

/-- The listing a page of a reading is cut from. -/
theorem Reading.answered (h : Reading orders size number start payload found)
    (hlists : Lists orders size request) :
    ∃ listing, listing.Perm (upTo (some start) orders) ∧ NewestFirst listing ∧
      request number payload = ⟨listing.take size, decide (size < listing.length)⟩ := by
  obtain ⟨listing, hperm, hsorted, hpage⟩ := hlists number payload
  exact ⟨listing, h.upTo_eq (fun _ horder => horder) ▸ hperm, hsorted, hpage⟩

/-- The page that ends the list, and what a cut page leads on to. -/
theorem orderPages_page (found : Dict ℤ ProtoOAOrder) (left : ℕ) (hpage : request number payload =
      ⟨listing.take size, decide (size < listing.length)⟩) :
    (listing.length ≤ size → orderPages request (left + 1) number payload found =
      (update found (newOf found (listing.take size)), false)) ∧
    (size < listing.length → newOf found (listing.take size) ≠ [] →
      orderPages request (left + 1) number payload found =
        orderPages request left (number + 1)
          { payload with toTimestamp? := ((newOf found (listing.take size)).map
              ProtoOAOrder.utcLastUpdateTimestamp).min? }
          (update found (newOf found (listing.take size)))) ∧
    (newOf found (listing.take size) = [] →
      orderPages request (left + 1) number payload found = (found, false)) := by
  refine ⟨fun hwhole => ?_, fun hcut hnew => ?_, fun hnone => ?_⟩
  · have hmore : decide (size < listing.length) = false := decide_eq_false (by omega)
    simp only [orderPages, hpage, hmore, Bool.not_false, Bool.true_or, if_true]
  · have hmore : decide (size < listing.length) = true := decide_eq_true hcut
    have hsome : (newOf found (listing.take size)).isEmpty = false := by
      rw [Bool.eq_false_iff, ne_eq, List.isEmpty_iff]
      exact hnew
    simp only [orderPages, hpage, hmore, hsome, Bool.not_true, Bool.or_self, Bool.false_eq_true,
      if_false]
  · simp only [orderPages, hpage, hnone, List.isEmpty_nil, Bool.or_true, if_true, update,
      List.foldl_nil]

/-- The loop finds every order or runs out of pages, unless a page that may be followed by another is
of one update time. -/
theorem orderPages_complete (hids : (orders.map ProtoOAOrder.orderId).Nodup)
    (hlists : Lists orders size request) (hnever : ¬StopsEarly orders size) {left : ℕ}
    (hleft : left + number = maxOrderPages)
    (h : Reading orders size number start payload found) :
    (orderPages request left number payload found).1.values.Perm orders ∨
      (orderPages request left number payload found).2 = true := by
  induction left generalizing number start payload found with
  | zero => exact .inr rfl
  | succ left ih =>
    obtain ⟨listing, hperm, hsorted, hpage⟩ := h.answered hlists
    obtain ⟨hlastPage, hcutPage, -⟩ := orderPages_page found left hpage
    rcases Nat.lt_or_ge size listing.length with hcut | hwhole
    · rw [hcutPage hcut (h.some_new hids hperm hcut)]
      rcases Nat.eq_zero_or_pos left with hzero | hpos
      · subst hzero
        exact .inr rfl
      · have hnot : ¬OneTime orders size start := fun hone =>
          hnever ⟨number, by omega, start, h.starts, hone⟩
        obtain ⟨next, -, hnext⟩ := h.next hids hperm hsorted hcut hnot
        exact ih (by omega) hnext
    · rw [hlastPage hwhole]
      exact .inl (h.ended hids hperm hwhole)

/-- A position without orders. -/
theorem positionOrders_nil (hlists : Lists [] size request) (accountId positionId : ℤ) :
    (positionOrders request accountId positionId).1 = [] := by
  obtain ⟨listing, hperm, -, hpage⟩ := hlists 0 ⟨accountId, positionId, none⟩
  have hnil : listing = [] := List.perm_nil.mp hperm
  have hread : orderPages request maxOrderPages 0 ⟨accountId, positionId, none⟩ Dict.empty =
      (update Dict.empty (newOf Dict.empty (listing.take size)), false) :=
    (orderPages_page _ _ hpage).1 (by rw [hnil]; exact Nat.zero_le _)
  rw [positionOrders, hread, hnil, List.take_nil]
  rfl

/-- Pages of no orders would be of one update time. -/
theorem size_pos (hsome : orders ≠ []) (hnever : ¬StopsEarly orders size) : 0 < size := by
  obtain ⟨start, hstart, -, hnewest⟩ := exists_newest size hsome
  by_contra hzero
  refine hnever ⟨0, by decide, start, hstart, by omega, ?_⟩
  have hall : orders.countP (·.utcLastUpdateTimestamp ≤ start) = orders.length :=
    List.countP_eq_length.mpr fun order horder => decide_eq_true (hnewest order horder)
  have hpos := List.length_pos_iff.mpr hsome
  omega

/-- A read of which no page stops it early finds every order, or logs that the list did not end. -/
theorem positionOrders_complete (hids : (orders.map ProtoOAOrder.orderId).Nodup)
    (hlists : Lists orders size request) (hnever : ¬StopsEarly orders size)
    (accountId positionId : ℤ) :
    (positionOrders request accountId positionId).1.Perm orders ∨
      (positionOrders request accountId positionId).2 = true := by
  by_cases hsome : orders = []
  · subst hsome
    exact .inl (positionOrders_nil hlists accountId positionId ▸ List.Perm.refl _)
  · obtain ⟨start, hfirst⟩ := reading_first accountId positionId (size_pos hsome hnever) hsome
    exact orderPages_complete hids hlists hnever rfl hfirst

/-! ## One listing

A venue that keeps its orders in one listing answers a cut page of one update time with the same page
again. -/

/-- The venue that keeps one listing. -/
def answer (listing : List ProtoOAOrder) (size : ℕ) (_ : ℕ)
    (payload : ProtoOAOrderListByPositionIdReq) : Page ProtoOAOrder :=
  let listed := upTo payload.toTimestamp? listing
  ⟨listed.take size, decide (size < listed.length)⟩

/-- A venue that answers from one sorted listing lists the orders. -/
theorem lists_answer (hperm : listing.Perm orders) (hsorted : NewestFirst listing) :
    Lists orders size (answer listing size) := fun _ payload =>
  ⟨upTo payload.toTimestamp? listing, hperm.filter _, hsorted.filter _, rfl⟩

/-- A part of a list keeps to its first items what it has of them. -/
theorem mem_take_filter {keep : ProtoOAOrder → Bool} {order : ProtoOAOrder}
    (h : order ∈ listing.take size) (hkeep : keep order = true) :
    order ∈ (listing.filter keep).take size := by
  induction listing generalizing size with
  | nil => exact absurd h (by rw [List.take_nil]; exact List.not_mem_nil)
  | cons first rest ih =>
    cases size with
    | zero => exact absurd h List.not_mem_nil
    | succ size =>
      rw [List.take_succ_cons, List.mem_cons] at h
      rcases h with rfl | hrest
      · rw [List.filter_cons_of_pos hkeep, List.take_succ_cons]
        exact List.mem_cons_self
      · by_cases hfirst : keep first = true
        · rw [List.filter_cons_of_pos hfirst, List.take_succ_cons]
          exact List.mem_cons_of_mem _ (ih hrest)
        · rw [List.filter_cons_of_neg hfirst]
          exact (List.take_sublist_take_left (Nat.le_succ size)).subset (ih hrest)

/-- What is found of a listing up to the start of a page is on that page. -/
def OnPage (listing : List ProtoOAOrder) (size : ℕ) (start : ℤ) (found : Dict ℤ ProtoOAOrder) : Prop :=
  ∀ order, Found found order → start < order.utcLastUpdateTimestamp ∨
    order ∈ (upTo (some start) listing).take size

/-- The pages start ever earlier. -/
theorem pageStart_le {next : ℤ} (hnext : pageStart orders size (number + 1) = some next) :
    ∃ start, pageStart orders size number = some start ∧ next ≤ start := by
  rw [pageStart] at hnext
  obtain ⟨start, hstart, htimes⟩ := Option.bind_eq_some_iff.mp hnext
  refine ⟨start, hstart, ?_⟩
  have hmem : next ∈ newestTimes orders (some start) := List.mem_of_getElem? htimes
  rw [newestTimes, List.mem_insertionSort] at hmem
  obtain ⟨order, horder, rfl⟩ := List.mem_map.mp hmem
  exact (mem_upTo.mp horder).2

/-- A page that is asked for comes after all those before it. -/
theorem pageStart_before {last : ℕ} (hlast : pageStart orders size last = some start)
    (hle : number ≤ last) : ∃ before, pageStart orders size number = some before ∧ start ≤ before := by
  induction last generalizing start with
  | zero =>
    obtain rfl : number = 0 := by omega
    exact ⟨start, hlast, le_refl _⟩
  | succ last ih =>
    rcases Nat.lt_or_ge number (last + 1) with hlt | hge
    · obtain ⟨middle, hmiddle, hstart⟩ := pageStart_le hlast
      obtain ⟨before, hbefore, hle⟩ := ih hmiddle (by omega)
      exact ⟨before, hbefore, by omega⟩
    · obtain rfl : number = last + 1 := by omega
      exact ⟨start, hlast, le_refl _⟩

/-- What is found of one listing stays on the page that is next. -/
theorem OnPage.update {next : ℤ} {new : List ProtoOAOrder}
    (hids : (orders.map ProtoOAOrder.orderId).Nodup)
    (hfoundIn : FoundIn ProtoOAOrder.orderId orders found) (hnew : ∀ order ∈ new, order ∈ orders)
    (h : OnPage listing size start found)
    (hpage : ∀ order ∈ new, order ∈ (upTo (some start) listing).take size) (hle : next ≤ start) :
    OnPage listing size next (update found new) := by
  intro order hfound
  by_cases hafter : next < order.utcLastUpdateTimestamp
  · exact .inl hafter
  have hon : order ∈ (upTo (some start) listing).take size := by
    rcases (found_update hids hfoundIn hnew).mp hfound with hold | hmem
    · exact (h order hold).resolve_left (by omega)
    · exact hpage order hmem
  have hnarrow : (upTo (some start) listing).filter
      (fun order => decide (order.utcLastUpdateTimestamp ≤ next)) = upTo (some next) listing := by
    rw [upTo, List.filter_filter, upTo]
    refine List.filter_congr fun other _ => ?_
    simp only [Option.all_some]
    grind
  exact .inr (hnarrow ▸ mem_take_filter hon (decide_eq_true (by omega)))

/-- The read of one listing reaches the first page of one update time. -/
theorem reaches (hids : (orders.map ProtoOAOrder.orderId).Nodup) (hsize : 0 < size)
    (hsome : orders ≠ []) (hperm : listing.Perm orders) (hsorted : NewestFirst listing) {last : ℕ}
    (hlast : last < maxOrderPages) (hstart : pageStart orders size last = some start)
    (hone : OneTime orders size start)
    (hbefore : ∀ number < last, ∀ start ∈ pageStart orders size number, ¬OneTime orders size start)
    (accountId positionId : ℤ) (hle : number ≤ last) :
    ∃ current payload found, Reading orders size number current payload found ∧
      OnPage listing size current found ∧
      orderPages (answer listing size) maxOrderPages 0 ⟨accountId, positionId, none⟩ Dict.empty =
        orderPages (answer listing size) (maxOrderPages - number) number payload found := by
  induction number with
  | zero =>
    obtain ⟨current, h⟩ := reading_first accountId positionId hsize hsome
    exact ⟨current, _, _, h, fun order hfound => absurd hfound not_found_empty, rfl⟩
  | succ number ih =>
    obtain ⟨current, payload, found, h, hon, hread⟩ := ih (by omega)
    have hlisted : ∀ order ∈ listing, order ∈ orders := fun order horder => hperm.mem_iff.mp horder
    have hpage : answer listing size number payload = ⟨(upTo (some current) listing).take size,
        decide (size < (upTo (some current) listing).length)⟩ := by
      rw [answer, h.upTo_eq hlisted]
    have hpart : (upTo (some current) listing).Perm (upTo (some current) orders) := hperm.filter _
    have hcut : size < (upTo (some current) listing).length := by
      obtain ⟨before, hcurrent, hstartLe⟩ := pageStart_before hstart (show number ≤ last by omega)
      have hsame : current = before := Option.some.inj (h.starts.symm.trans hcurrent)
      rw [length_listing hpart]
      refine lt_of_lt_of_le hone.2 (List.countP_mono_left fun order _ htime => ?_)
      have hearly := of_decide_eq_true htime
      exact decide_eq_true (by omega)
    have hnot : ¬OneTime orders size current := hbefore number (by omega) current h.starts
    obtain ⟨next, hnext, hreading⟩ := h.next hids hpart (hsorted.filter _) hcut hnot
    have hleft : maxOrderPages - number = (maxOrderPages - (number + 1)) + 1 := by omega
    obtain ⟨-, hcutPage, -⟩ :=
      orderPages_page found (maxOrderPages - (number + 1)) hpage
    refine ⟨next, _, _, hreading, ?_, ?_⟩
    · obtain ⟨before, hcurrent, hnextLe⟩ := pageStart_le hreading.starts
      have hsame : current = before := Option.some.inj (h.starts.symm.trans hcurrent)
      have hnewPage : ∀ order ∈ newOf found ((upTo (some current) listing).take size),
          order ∈ (upTo (some current) listing).take size := fun order horder =>
        List.mem_of_mem_filter horder
      exact hon.update hids h.foundIn
        (fun order horder => Reading.mem_of_page hpart order (hnewPage order horder)) hnewPage
        (by omega)
    · rw [hread, hleft]
      exact hcutPage hcut (h.some_new hids hpart hcut)

/-- A cut page of one update time is asked for again, brings nothing new and ends the read, with what
it was cut off unread. -/
theorem stops (hids : (orders.map ProtoOAOrder.orderId).Nodup) (hperm : listing.Perm orders)
    (hsorted : NewestFirst listing) (h : Reading orders size number start payload found)
    (hon : OnPage listing size start found) (hone : OneTime orders size start) (left : ℕ) :
    ∃ done, orderPages (answer listing size) (left + 2) number payload found = (done, false) ∧
      ¬done.values.Perm orders := by
  have hlisted : ∀ order ∈ listing, order ∈ orders := fun order horder => hperm.mem_iff.mp horder
  have hpage : answer listing size number payload = ⟨(upTo (some start) listing).take size,
      decide (size < (upTo (some start) listing).length)⟩ := by
    rw [answer, h.upTo_eq hlisted]
  have hpart : (upTo (some start) listing).Perm (upTo (some start) orders) := hperm.filter _
  have hcut : size < (upTo (some start) listing).length := by
    rw [length_listing hpart]
    exact hone.2
  obtain ⟨-, hcutPage, -⟩ := orderPages_page found (left + 1) hpage
  have hread := hcutPage hcut (h.some_new hids hpart hcut)
  set onPage := (upTo (some start) listing).take size with honPage
  set new := newOf found onPage with hnew
  have hmemPage : ∀ order ∈ onPage, order ∈ orders := Reading.mem_of_page hpart
  have hnewPage : ∀ order ∈ new, order ∈ onPage := fun order horder =>
    List.mem_of_mem_filter horder
  have hnewOrders : ∀ order ∈ new, order ∈ orders := fun order horder =>
    hmemPage order (hnewPage order horder)
  have htimes : ∀ order ∈ onPage, order.utcLastUpdateTimestamp = start :=
    page_oneTime hpart (hsorted.filter _) hone
  -- The next request is for the same page.
  have hmin : (new.map ProtoOAOrder.utcLastUpdateTimestamp).min? = some start := by
    obtain ⟨order, rest, hcons⟩ := List.exists_cons_of_ne_nil (h.some_new hids hpart hcut)
    refine List.min?_eq_some_iff.mpr ⟨?_, fun ms hms => ?_⟩
    · have horder : order ∈ new := by
        rw [hnew, hcons]
        exact List.mem_cons_self
      exact List.mem_map.mpr ⟨order, horder, htimes order (hnewPage order horder)⟩
    · obtain ⟨order, horder, rfl⟩ := List.mem_map.mp hms
      exact le_of_eq (htimes order (hnewPage order horder)).symm
  have hfoundIn := foundIn_update h.foundIn hnewOrders
  have hfoundUpdate {order : ProtoOAOrder} :
      Found (update found new) order ↔ Found found order ∨ order ∈ new :=
    found_update hids h.foundIn hnewOrders
  have hagain : answer listing size (number + 1) { payload with toTimestamp? := some start } =
      ⟨onPage, decide (size < (upTo (some start) listing).length)⟩ := rfl
  have hnothing : newOf (update found new) onPage = [] := by
    refine List.eq_nil_iff_forall_not_mem.mpr fun order horder => ?_
    obtain ⟨hmem, hunfound⟩ := (mem_newOf hids hfoundIn hmemPage).mp horder
    refine hunfound (hfoundUpdate.mpr ?_)
    by_cases hold : Found found order
    · exact .inl hold
    · exact .inr ((mem_newOf hids h.foundIn hmemPage).mpr ⟨hmem, hold⟩)
  rw [hmin] at hread
  obtain ⟨-, -, hstop⟩ := orderPages_page (update found new) left hagain
  refine ⟨update found new, hread.trans (hstop hnothing), fun hall => ?_⟩
  -- An order the page was cut off is none of those found.
  obtain ⟨lost, hlost⟩ := List.exists_mem_of_length_pos
    (l := (upTo (some start) listing).drop size) (by rw [List.length_drop]; omega)
  have hlostListed : lost ∈ upTo (some start) listing := List.mem_of_mem_drop hlost
  have hlostOrders := mem_upTo.mp (hpart.mem_iff.mp hlostListed)
  obtain ⟨id, hget⟩ := Dict.mem_values.mp (hall.mem_iff.mpr hlostOrders.1)
  have hfound : Found (update found new) lost := by
    obtain ⟨hid, -⟩ := hfoundIn.named hget
    rw [Found, hid]
    exact hget
  have hlostPage : lost ∈ onPage := by
    rcases hfoundUpdate.mp hfound with hold | hmem
    · refine (hon lost hold).resolve_left fun hafter => ?_
      have hle := hlostOrders.2
      omega
    · exact hnewPage lost hmem
  have hnodup : (upTo (some start) listing).Nodup :=
    hpart.nodup_iff.mpr ((List.Nodup.of_map _ hids).sublist List.filter_sublist)
  rw [← List.take_append_drop size (upTo (some start) listing)] at hnodup
  exact (List.nodup_append.mp hnodup).2.2 lost hlostPage lost hlost rfl

/-- The orders of a position, newest first. -/
def newestFirst (orders : List ProtoOAOrder) : List ProtoOAOrder :=
  sortOn (fun order => -order.utcLastUpdateTimestamp) orders

/-- The listing is sorted, the newest first. -/
theorem newestFirst_sorted (orders : List ProtoOAOrder) : NewestFirst (newestFirst orders) :=
  (sortOn_pairwise _ orders).imp fun h => by omega

/-- A venue that keeps one listing loses orders of every position whose read is stopped early. -/
theorem positionOrders_stopped (hids : (orders.map ProtoOAOrder.orderId).Nodup)
    (hstops : StopsEarly orders size) (hperm : listing.Perm orders) (hsorted : NewestFirst listing)
    (accountId positionId : ℤ) :
    ¬(positionOrders (answer listing size) accountId positionId).1.Perm orders ∧
      (positionOrders (answer listing size) accountId positionId).2 = false := by
  have hsome : orders ≠ [] := by
    rintro rfl
    obtain ⟨_, _, _, _, -, hcut⟩ := hstops
    exact absurd hcut (Nat.not_lt_zero _)
  rcases Nat.eq_zero_or_pos size with hzero | hsize
  · subst hzero
    have hpage : answer listing 0 0 ⟨accountId, positionId, none⟩ =
        ⟨(upTo none listing).take 0, decide (0 < (upTo none listing).length)⟩ := rfl
    obtain ⟨-, -, hstop⟩ := orderPages_page Dict.empty 19 hpage
    have hread : positionOrders (answer listing 0) accountId positionId = ([], false) :=
      congrArg (fun done : Dict ℤ ProtoOAOrder × Bool => (done.1.values, done.2)) (hstop rfl)
    rw [hread]
    exact ⟨fun hall => hsome (List.nil_perm.mp hall), rfl⟩
  · classical
    have hfirst := Nat.find_spec hstops
    have hleast : ∀ number < Nat.find hstops, ¬(number < maxOrderPages - 1 ∧
        ∃ start ∈ pageStart orders size number, OneTime orders size start) :=
      fun number hlt => Nat.find_min hstops hlt
    generalize Nat.find hstops = last at hfirst hleast
    obtain ⟨hlast, start, hstart, hone⟩ := hfirst
    obtain ⟨current, payload, found, h, hon, hread⟩ := reaches hids hsize hsome hperm hsorted
      (Nat.lt_of_lt_pred hlast) hstart hone
      (fun number hlt start hmem hone => hleast number hlt ⟨by omega, start, hmem, hone⟩)
      accountId positionId (le_refl last)
    obtain rfl : current = start := Option.some.inj (h.starts.symm.trans hstart)
    obtain ⟨done, hdone, hlost⟩ :=
      stops hids hperm hsorted h hon hone (maxOrderPages - last - 2)
    have hleft : maxOrderPages - last - 2 + 2 = maxOrderPages - last := by omega
    rw [hleft] at hdone
    rw [positionOrders, hread, hdone]
    exact ⟨hlost, rfl⟩

/-! ## Exactly then -/

/-- The read of a position's orders ends, and with every venue it returns all of them or logs that the
list did not end, exactly when no page that may be followed by another is cut and of one update
time. -/
theorem position_orders_complete_iff (hids : (orders.map ProtoOAOrder.orderId).Nodup)
    (accountId positionId : ℤ) :
    (∀ request, Lists orders size request →
      (positionOrders request accountId positionId).1.Perm orders ∨
        (positionOrders request accountId positionId).2 = true) ↔ ¬StopsEarly orders size := by
  constructor
  · intro hcomplete hstops
    have hlisted : (newestFirst orders).Perm orders := sortOn_perm _ orders
    have hsorted := newestFirst_sorted orders
    obtain ⟨hlost, hsilent⟩ :=
      positionOrders_stopped hids hstops hlisted hsorted accountId positionId
    rcases hcomplete _ (lists_answer hlisted hsorted) with hall | hlogged
    · exact hlost hall
    · rw [hsilent] at hlogged
      cases hlogged
  · intro hnever request hlists
    exact positionOrders_complete hids hlists hnever accountId positionId

/-- An order last updated at a time. -/
def sampleOrder (orderId updated : ℤ) : ProtoOAOrder where
  orderId
  tradeData := { symbolId := 5, volume := 1000, tradeSide := .buy }
  orderType := .market
  utcLastUpdateTimestamp? := some updated

/-- Of three orders at three times none is lost. -/
theorem three_orders_complete :
    ¬StopsEarly [sampleOrder 3 30, sampleOrder 2 20, sampleOrder 1 10] 2 ∧ ∀ request,
      Lists [sampleOrder 3 30, sampleOrder 2 20, sampleOrder 1 10] 2 request →
        (positionOrders request 1 7).1.Perm
            [sampleOrder 3 30, sampleOrder 2 20, sampleOrder 1 10] ∨
          (positionOrders request 1 7).2 = true :=
  ⟨by decide +kernel, (position_orders_complete_iff (by decide) 1 7).mpr (by decide +kernel)⟩

/-- The entry comes after a page of two orders of one update time: it is lost without a word. -/
theorem entry_lost_unlogged :
    ∃ request, Lists [sampleOrder 3 20, sampleOrder 2 20, sampleOrder 1 10] 2 request ∧
      ((positionOrders request 1 7).1.map ProtoOAOrder.orderId = [3, 2] ∧
        ¬(positionOrders request 1 7).1.Perm
          [sampleOrder 3 20, sampleOrder 2 20, sampleOrder 1 10]) ∧
      (positionOrders request 1 7).2 = false := by
  refine ⟨answer [sampleOrder 3 20, sampleOrder 2 20, sampleOrder 1 10] 2,
    lists_answer (List.Perm.refl _) ?_, ⟨by decide, fun hall => ?_⟩, by decide⟩
  · decide
  · exact absurd hall.length_eq (by decide)

end PositionOrders

end NautilusCtrader
