import NautilusCtrader.Common.Machine
import NautilusCtrader.VenueRecords
import Mathlib.Data.List.Basic

/-!
# The outbox

Nautilus applies a report or an activity at once, but only queues an order event. A report behind events
this client sent is therefore held until those are applied, and everything behind it with it. `Client` is
what the client holds, with what Nautilus has applied; a run tells what was handed in, what was delivered
and what became of the events sent. Everything is delivered in the order it was handed in, each report
behind the events sent before it, and a delivery task is there while anything is held
(`outbox_keeps_order`). An event whose order has left Nautilus's cache is not waited for
(`purged_not_waited_for`).
-/

namespace NautilusCtrader

open Common

namespace Outbox

/-- A Nautilus order event, with the client order id of its order. -/
structure Event where
  id : ℕ
  order : String
deriving DecidableEq, Repr

/-- What is handed in for Nautilus. -/
inductive Item
  | record (record : Record)
  /-- `_Resent`: an order's report sent again. -/
  | resent (venueOrderId : String)
  /-- `_Deferred`: an event of the client's own. -/
  | deferred (event : Event)
deriving DecidableEq, Repr

/-- `_applied_at_once`: whether Nautilus applies what the item becomes at once. -/
def appliedAtOnce : Item → Bool
  | .record (.orderEvent event) => event.clientOrderId.isNone
  | .record (.externalOrder _) | .record (.activity _) | .resent _ => true
  | _ => false

/-- Where the delivery task stands between two turns. -/
inductive TaskAt
  | created
  /-- It awaits `_wake`, which may be set. -/
  | waiting (woken : Bool)
deriving DecidableEq, Repr

def TaskAt.wake : TaskAt → TaskAt
  | .created => .created
  | .waiting _ => .waiting true

/-- What a run tells. -/
inductive Told
  | handed (item : Item)
  | delivered (item : Item)
  | sent (event : Event)
  | applied (event : Event)
  | purged (order : String)
  | expired (event : Event)
deriving DecidableEq, Repr

/-- The client's outbox, and what Nautilus has applied. -/
structure Client where
  outbox : List Item := []
  outboxTask : Option TaskAt := none
  /-- The events sent and not yet seen applied, oldest first. -/
  unapplied : List Event := []
  /-- The events among their orders' events in Nautilus's cache. -/
  applied : List Event := []
  /-- The orders that have left the cache. -/
  purged : List String := []
  /-- How many items have been delivered. -/
  deliveries : ℕ := 0
deriving DecidableEq, Repr

namespace Client

variable (s : Client)

/-- `_settled`: whether Nautilus applied the event, or never can. -/
def settled (event : Event) : Bool := event ∈ s.applied || event.order ∈ s.purged

/-- `_forget`: stop waiting for the event, and wake the delivery. -/
def forget (event : Event) : Client :=
  { s with
    unapplied := s.unapplied.filter (· ≠ event)
    outboxTask := s.outboxTask.map TaskAt.wake }

/-- `_check_unapplied`. -/
def checkUnapplied : Client :=
  s.unapplied.foldl (fun s event => if s.settled event then s.forget event else s) s

section Deliveries

-- The events a record becomes, by how many items were delivered before it.
variable (makes : ℕ → List Event)

/-- The events that delivering an item sends. -/
def events (item : Item) : List Event :=
  match item with
  | .deferred event => [event]
  | item => if appliedAtOnce item then [] else makes s.deliveries

/-- `_handle_record`, or `_send_deferred`: what an item becomes goes to Nautilus. -/
def deliver (item : Item) : Client × List Told :=
  let events := s.events makes item
  ({ s with
      unapplied := s.unapplied ++ events
      deliveries := s.deliveries + 1 }, .delivered item :: events.map .sent)

/-- `_send_order_event` of an event of the client's own. -/
def sendOrderEvent (event : Event) : Client × List Told :=
  let item := Item.deferred event
  if s.outbox ≠ [] then ({ s with outbox := s.outbox ++ [item] }, [.handed item])
  else
    let delivered := s.deliver makes item
    (delivered.1, .handed item :: delivered.2)

/-- A pass of `_handle_records` once the record's bookkeeping is done. -/
def place (item : Item) : Client × List Told :=
  let s := if appliedAtOnce item then s.checkUnapplied else s
  if s.outbox ≠ [] ∨ appliedAtOnce item = true ∧ s.unapplied ≠ [] then
    ({ s with
        outbox := s.outbox ++ [item]
        outboxTask := s.outboxTask.or (some .created) }, [.handed item])
  else
    let delivered := s.deliver makes item
    (delivered.1, .handed item :: delivered.2)

/-- `_deliver_outbox` from its inner loop on, with what is left of the outbox. -/
def deliverItems : List Item → Client → Client × List Told
  | [], s => ({ s with outbox := [], outboxTask := none }, [])
  | item :: rest, s =>
    -- At a report behind events it sent, the loop looks again which are applied.
    let s := if appliedAtOnce item ∧ s.unapplied ≠ [] then s.checkUnapplied else s
    if appliedAtOnce item ∧ s.unapplied ≠ [] then
      ({ s with outbox := item :: rest, outboxTask := some (.waiting false) }, [])
    else
      let delivered := s.deliver makes item
      let later := deliverItems rest delivered.1
      (later.1, delivered.2 ++ later.2)

/-- A turn of the delivery task, unless it waits. -/
def deliverOutbox : Client × List Told :=
  match s.outboxTask with
  | none | some (.waiting false) => (s, [])
  | some _ =>
    if s.outbox = [] then ({ s with outboxTask := none }, [])
    else
      let s := s.checkUnapplied
      if s.unapplied ≠ [] then ({ s with outboxTask := some (.waiting false) }, [])
      else deliverItems makes s.outbox s

end Deliveries

/-- `_on_order_event_published`. -/
def published (event : Event) : Client :=
  if event ∈ s.unapplied ∧ s.settled event then s.forget event else s

/-- `_expire`. -/
def expire (event : Event) : Client × List Told :=
  if event ∈ s.unapplied then (s.forget event, [.expired event]) else (s, [])

end Client

/-- A record handed in, with the events its bookkeeping sends first. -/
structure Handed where
  own : List Event := []
  item : Item
deriving DecidableEq, Repr

/-- What happens. -/
inductive Input
  /-- `_handle_records`. -/
  | handleRecords (records : List Handed)
  | sendOrderEvent (event : Event)
  | deliverOutbox
  | published (event : Event)
  | expire (event : Event)
  /-- Nautilus applies an event of its queue. -/
  | apply (event : Event)
  /-- An order leaves Nautilus's cache. -/
  | purge (order : String)
deriving DecidableEq, Repr

section Machines

variable (makes : ℕ → List Event)

/-- The client's own events, sent one after another. -/
def sends : Machine Client Event Told where
  step s event := s.sendOrderEvent makes event

/-- The passes of `_handle_records`. -/
def passes : Machine Client Handed Told where
  step s handed :=
    let s' := (sends makes).after s handed.own
    let placed := s'.place makes handed.item
    (placed.1, (sends makes).told s handed.own ++ placed.2)

/-- The client between two turns of the event loop. -/
def machine : Machine Client Input Told where
  step s
    | .handleRecords records => ((passes makes).after s records, (passes makes).told s records)
    | .sendOrderEvent event => s.sendOrderEvent makes event
    | .deliverOutbox => s.deliverOutbox makes
    | .published event => (s.published event, [])
    | .expire event => s.expire event
    | .apply event => ({ s with applied := event :: s.applied }, [.applied event])
    | .purge order => ({ s with purged := order :: s.purged }, [.purged order])

end Machines

/-! ## What is asked of a run -/

def Told.handed? : Told → Option Item
  | .handed item => some item
  | _ => none

def Told.delivered? : Told → Option Item
  | .delivered item => some item
  | _ => none

/-- Every event sent was applied or has expired. -/
def AllApplied (told : List Told) : Prop :=
  ∀ event, .sent event ∈ told → .applied event ∈ told ∨ .expired event ∈ told

/-- Every event sent was applied or has expired, or its order has left the cache. -/
def AllSettled (told : List Told) : Prop :=
  ∀ event, .sent event ∈ told →
    .applied event ∈ told ∨ .purged event.order ∈ told ∨ .expired event ∈ told

/-- After a run from an empty outbox, what was handed in is what was delivered and what is held, in this
order; each report was delivered once the events sent before it were `done`; and there is a delivery task
if anything is held. -/
structure KeepsOrder (makes : ℕ → List Event) (done : List Told → Prop) (inputs : List Input) : Prop where
  order : ((machine makes).told {} inputs).filterMap Told.handed? =
    ((machine makes).told {} inputs).filterMap Told.delivered? ++ ((machine makes).after {} inputs).outbox
  behind : ∀ before item later, (machine makes).told {} inputs = before ++ .delivered item :: later →
    appliedAtOnce item = true → done before
  task : ((machine makes).after {} inputs).outbox ≠ [] →
    ((machine makes).after {} inputs).outboxTask ≠ none

/-! ## What a run keeps -/

/-- Each report told of as delivered came once the records before it were `done`. -/
def Behind (done : List Told → Prop) (told : List Told) : Prop :=
  ∀ before item later, told = before ++ .delivered item :: later → appliedAtOnce item = true → done before

/-- What holds of the client while `items` are held: what was handed in is what was delivered and they,
each report came behind the events sent before it, and what became of an event sent is known. -/
structure Held (told : List Told) (s : Client) (items : List Item) : Prop where
  order : told.filterMap Told.handed? = told.filterMap Told.delivered? ++ items
  behind : Behind AllSettled told
  tracked : ∀ event, .sent event ∈ told → event ∈ s.unapplied ∨
    .applied event ∈ told ∨ .purged event.order ∈ told ∨ .expired event ∈ told
  applied : ∀ event ∈ s.applied, .applied event ∈ told
  purged : ∀ order ∈ s.purged, .purged order ∈ told

section Kept

variable {done : List Told → Prop} {told more : List Told} {s : Client} {item : Item} {items : List Item}
  {event : Event} {makes : ℕ → List Event}

/-- What delivers nothing keeps items behind what must be done first. -/
theorem Behind.append_quiet (h : Behind done told)
    (hquiet : more.filterMap Told.delivered? = []) : Behind done (told ++ more) := by
  intro before item later hsplit
  rcases Machine.append_split hsplit with ⟨earlier, -, htold⟩ | ⟨earlier, -, hmore⟩
  · exact h before item earlier htold
  · rw [hmore, List.filterMap_append] at hquiet
    simp [Told.delivered?] at hquiet

/-- An item delivered after what must be done stays behind it. -/
theorem Behind.append_delivered (h : Behind done told) (hdone : appliedAtOnce item = true → done told) :
    Behind done (told ++ [.delivered item]) := by
  intro before item' later hsplit
  rcases Machine.concat_split hsplit with ⟨earlier, -, htold⟩ | ⟨-, htold, hitem⟩
  · exact h before item' earlier htold
  · obtain rfl : item = item' := Told.delivered.inj hitem
    rw [← htold]
    exact hdone

/-- The outbox and its task are no part of what is held. -/
theorem Held.same {s' : Client} (h : Held told s items) (hunapplied : s'.unapplied = s.unapplied)
    (happlied : s'.applied = s.applied) (hpurged : s'.purged = s.purged) : Held told s' items := by
  refine ⟨h.order, h.behind, ?_, ?_, ?_⟩
  · rw [hunapplied]
    exact h.tracked
  · rw [happlied]
    exact h.applied
  · rw [hpurged]
    exact h.purged

/-- Records of neither hand-ins nor deliveries keep what is held. -/
theorem Held.append_quiet {s' : Client} (h : Held told s items)
    (hhanded : more.filterMap Told.handed? = []) (hdelivered : more.filterMap Told.delivered? = [])
    (htracked : ∀ event, .sent event ∈ told ++ more → event ∈ s'.unapplied ∨
      .applied event ∈ told ++ more ∨ .purged event.order ∈ told ++ more ∨ .expired event ∈ told ++ more)
    (happlied : ∀ event ∈ s'.applied, .applied event ∈ told ++ more)
    (hpurged : ∀ order ∈ s'.purged, .purged order ∈ told ++ more) : Held (told ++ more) s' items := by
  refine ⟨?_, h.behind.append_quiet hdelivered, htracked, happlied, hpurged⟩
  rw [List.filterMap_append, List.filterMap_append, hhanded, hdelivered, List.append_nil, List.append_nil]
  exact h.order

/-- An item more is handed over. -/
theorem Held.hand (h : Held told s items) (item : Item) :
    Held (told ++ [.handed item]) s (items ++ [item]) := by
  refine ⟨?_, h.behind.append_quiet rfl, ?_, ?_, ?_⟩
  · rw [List.filterMap_append, List.filterMap_append, h.order]
    simp [Told.handed?, Told.delivered?]
  · intro event hsent
    simp only [List.mem_append, List.mem_singleton, reduceCtorEq, or_false] at hsent ⊢
    exact h.tracked event hsent
  · intro event hin
    exact List.mem_append_left _ (h.applied event hin)
  · intro order hin
    exact List.mem_append_left _ (h.purged order hin)

/-- The events told of as settled are known to be. -/
theorem Held.settled (h : Held told s items) (hsettled : s.settled event = true) :
    .applied event ∈ told ∨ .purged event.order ∈ told ∨ .expired event ∈ told := by
  unfold Client.settled at hsettled
  rw [Bool.or_eq_true, decide_eq_true_eq, decide_eq_true_eq] at hsettled
  rcases hsettled with hin | hin
  · exact .inl (h.applied event hin)
  · exact .inr (.inl (h.purged event.order hin))

/-- The client as it stops waiting for an event that is settled, or has expired. -/
theorem Held.forget (h : Held told s items) (event : Event)
    (hdone : .applied event ∈ told ∨ .purged event.order ∈ told ∨ .expired event ∈ told) :
    Held told (s.forget event) items := by
  refine ⟨h.order, h.behind, fun other hsent => ?_, h.applied, h.purged⟩
  rcases h.tracked other hsent with hin | hout
  · by_cases heq : other = event
    · rw [heq]
      exact .inr hdone
    · exact .inl (List.mem_filter.mpr ⟨hin, by simpa using heq⟩)
  · exact .inr hout

/-- What `_forget` keeps of a settled event, `_check_unapplied` keeps. -/
theorem Client.checkUnapplied_keeps {P : Client → Prop} (hs : P s)
    (hforget : ∀ (s : Client) (event : Event), P s → s.settled event = true → P (s.forget event)) :
    P s.checkUnapplied := by
  unfold Client.checkUnapplied
  suffices ∀ (events : List Event) (s : Client), P s →
      P (events.foldl (fun s event => if s.settled event then s.forget event else s) s) from
    this s.unapplied s hs
  intro events
  induction events with
  | nil =>
    intro s hs
    exact hs
  | cons event events ih =>
    intro s hs
    rw [List.foldl_cons]
    apply ih
    by_cases hsettled : s.settled event = true
    · rw [if_pos hsettled]
      exact hforget s event hs hsettled
    · rwa [if_neg hsettled]

/-- Looking for overdue events holds the same items. -/
theorem Held.checkUnapplied (h : Held told s items) : Held told s.checkUnapplied items := by
  apply Client.checkUnapplied_keeps (P := fun s => Held told s items) h
  intro s event h hsettled
  exact h.forget event (h.settled hsettled)

/-- Delivering the first item held keeps the rest, if nothing is waited for or it is no report. -/
theorem Held.deliver (h : Held told s (item :: items))
    (hclear : appliedAtOnce item = true → s.unapplied = []) (makes : ℕ → List Event) :
    Held (told ++ (s.deliver makes item).2) (s.deliver makes item).1 items := by
  have hsents (events : List Event) : (events.map Told.sent).filterMap Told.handed? = [] ∧
      (events.map Told.sent).filterMap Told.delivered? = [] := by
    induction events with
    | nil => exact ⟨rfl, rfl⟩
    | cons event events ih => exact ih
  have hbehind : Behind AllSettled (told ++ [.delivered item]) := by
    refine h.behind.append_delivered fun honce event hsent => ?_
    rcases h.tracked event hsent with hin | hout
    · rw [hclear honce] at hin
      exact absurd hin List.not_mem_nil
    · exact hout
  unfold Client.deliver
  dsimp only
  have hsplit : told ++ .delivered item :: (s.events makes item).map .sent =
      (told ++ [.delivered item]) ++ (s.events makes item).map .sent := by
    rw [List.append_assoc]
    rfl
  rw [hsplit]
  refine ⟨?_, hbehind.append_quiet (hsents _).2, ?_, ?_, ?_⟩
  · simp only [List.filterMap_append, (hsents _).1, (hsents _).2, h.order]
    simp [Told.handed?, Told.delivered?]
  · intro event hsent
    simp only [List.mem_append, List.mem_singleton, reduceCtorEq, or_false, List.mem_map,
      Told.sent.injEq, exists_eq_right, exists_false, and_false] at hsent ⊢
    rcases hsent with hold | hnew
    · rcases h.tracked event hold with hin | hout
      · exact .inl (.inl hin)
      · exact .inr hout
    · exact .inl (.inr hnew)
  · intro event hin
    exact List.mem_append_left _ (List.mem_append_left _ (h.applied event hin))
  · intro order hin
    exact List.mem_append_left _ (List.mem_append_left _ (h.purged order hin))

/-- After whole steps the items held are the outbox, and a delivery task attends to them. -/
structure Kept (told : List Told) (s : Client) : Prop where
  held : Held told s s.outbox
  attended : s.outbox ≠ [] → s.outboxTask ≠ none

/-- An event that is done with waits no longer. -/
theorem Kept.forget (h : Kept told s) (event : Event)
    (hdone : .applied event ∈ told ∨ .purged event.order ∈ told ∨ .expired event ∈ told) :
    Kept told (s.forget event) := by
  refine ⟨h.held.forget event hdone, fun hne hnone => h.attended hne ?_⟩
  exact Option.map_eq_none_iff.mp hnone

/-- Overdue events are looked for. -/
theorem Kept.checkUnapplied (h : Kept told s) : Kept told s.checkUnapplied := by
  apply Client.checkUnapplied_keeps (P := Kept told) h
  intro s event h hsettled
  exact h.forget event (h.held.settled hsettled)

/-- An item handed in goes to Nautilus at once, if nothing is before it. -/
theorem Kept.deliver (h : Kept told s) (hempty : s.outbox = [])
    (hclear : appliedAtOnce item = true → s.unapplied = []) :
    Kept (told ++ .handed item :: (s.deliver makes item).2) (s.deliver makes item).1 := by
  have hhanded : Held (told ++ [.handed item]) s [item] := by
    have hheld := h.held.hand item
    rwa [hempty] at hheld
  have hdelivered := hhanded.deliver hclear makes
  rw [List.append_assoc] at hdelivered
  have houtbox : (s.deliver makes item).1.outbox = [] := hempty
  refine ⟨?_, fun hne => absurd houtbox hne⟩
  rw [houtbox]
  exact hdelivered

/-- An item handed in joins the outbox, attended to. -/
theorem Kept.hold (h : Kept told s) (item : Item) {task : Option TaskAt} (htask : task ≠ none) :
    Kept (told ++ [.handed item]) { s with outbox := s.outbox ++ [item], outboxTask := task } := by
  have hheld := h.held.hand item
  exact ⟨hheld.same rfl rfl rfl, fun _ => htask⟩

/-- An order's event is sent, and waits to be applied. -/
theorem Kept.sendOrderEvent (h : Kept told s) (event : Event) :
    Kept (told ++ (s.sendOrderEvent makes event).2) (s.sendOrderEvent makes event).1 := by
  unfold Client.sendOrderEvent
  dsimp only
  by_cases hne : s.outbox ≠ []
  · rw [if_pos hne]
    exact h.hold (.deferred event) (h.attended hne)
  · rw [if_neg hne]
    apply h.deliver (not_not.mp hne)
    intro honce
    simp [appliedAtOnce] at honce

/-- An item is delivered, or placed behind those that wait. -/
theorem Kept.place (h : Kept told s) (item : Item) :
    Kept (told ++ (s.place makes item).2) (s.place makes item).1 := by
  have hchecked : Kept told (if appliedAtOnce item then s.checkUnapplied else s) := by
    by_cases honce : appliedAtOnce item = true
    · rw [if_pos honce]
      exact h.checkUnapplied
    · rwa [if_neg honce]
  unfold Client.place
  dsimp only
  generalize (if appliedAtOnce item then s.checkUnapplied else s) = s' at hchecked ⊢
  by_cases hwaits : s'.outbox ≠ [] ∨ appliedAtOnce item = true ∧ s'.unapplied ≠ []
  · rw [if_pos hwaits]
    apply hchecked.hold
    simp
  · rw [if_neg hwaits]
    rw [not_or, not_not, not_and, not_not] at hwaits
    exact hchecked.deliver hwaits.1 hwaits.2

/-- The inner loop, by induction on what is left of the outbox. -/
theorem Held.deliverItems (h : Held told s items) :
    Kept (told ++ (s.deliverItems makes items).2) (s.deliverItems makes items).1 := by
  induction items generalizing told s with
  | nil =>
    unfold Client.deliverItems
    rw [List.append_nil]
    exact ⟨h.same rfl rfl rfl, fun hne => absurd rfl hne⟩
  | cons item rest ih =>
    unfold Client.deliverItems
    dsimp only
    have hchecked : Held told (if appliedAtOnce item ∧ s.unapplied ≠ [] then s.checkUnapplied else s)
        (item :: rest) := by
      by_cases hbehind : appliedAtOnce item ∧ s.unapplied ≠ []
      · rw [if_pos hbehind]
        exact h.checkUnapplied
      · rwa [if_neg hbehind]
    generalize (if appliedAtOnce item ∧ s.unapplied ≠ [] then s.checkUnapplied else s) = s'
      at hchecked ⊢
    by_cases hwaits : appliedAtOnce item ∧ s'.unapplied ≠ []
    · rw [if_pos hwaits, List.append_nil]
      exact ⟨hchecked.same rfl rfl rfl, fun _ => Option.some_ne_none _⟩
    · rw [if_neg hwaits]
      rw [not_and, not_not] at hwaits
      have hrest := ih (hchecked.deliver hwaits makes)
      rwa [List.append_assoc] at hrest

/-- What may go is delivered. -/
theorem Kept.deliverOutbox (h : Kept told s) :
    Kept (told ++ (s.deliverOutbox makes).2) (s.deliverOutbox makes).1 := by
  have hheld := h.checkUnapplied.held
  unfold Client.deliverOutbox
  split
  · rwa [List.append_nil]
  · rwa [List.append_nil]
  · dsimp only
    by_cases hempty : s.outbox = []
    · rw [if_pos hempty, List.append_nil]
      exact ⟨h.held.same rfl rfl rfl, fun hne => absurd hempty hne⟩
    · rw [if_neg hempty]
      by_cases hwaits : s.checkUnapplied.unapplied ≠ []
      · rw [if_pos hwaits, List.append_nil]
        exact ⟨hheld.same rfl rfl rfl, fun _ => Option.some_ne_none _⟩
      · rw [if_neg hwaits]
        exact hheld.deliverItems

/-- Nautilus or the event loop does something, and the client may learn what became of an event. -/
theorem Kept.settle {s' : Client} {news : Told} (h : Kept told s)
    (hquiet : news.handed? = none ∧ news.delivered? = none) (hsent : ∀ event, news ≠ .sent event)
    (hunapplied : s'.unapplied = s.unapplied) (houtbox : s'.outbox = s.outbox)
    (htask : s'.outboxTask = s.outboxTask)
    (happlied : ∀ event ∈ s'.applied, event ∈ s.applied ∨ news = .applied event)
    (hpurged : ∀ order ∈ s'.purged, order ∈ s.purged ∨ news = .purged order) :
    Kept (told ++ [news]) s' := by
  refine ⟨?_, by rw [houtbox, htask]; exact h.attended⟩
  rw [houtbox]
  apply h.held.append_quiet
  · simp [hquiet.1]
  · simp [hquiet.2]
  · intro event hin
    rw [hunapplied]
    rcases List.mem_append.mp hin with hold | hnew
    · rcases h.held.tracked event hold with hun | happ | hpur | hexp
      · exact .inl hun
      · exact .inr (.inl (List.mem_append_left _ happ))
      · exact .inr (.inr (.inl (List.mem_append_left _ hpur)))
      · exact .inr (.inr (.inr (List.mem_append_left _ hexp)))
    · exact absurd (List.mem_singleton.mp hnew).symm (hsent event)
  · intro event hin
    rcases happlied event hin with hold | rfl
    · exact List.mem_append_left _ (h.held.applied event hold)
    · exact List.mem_append_right _ List.mem_cons_self
  · intro order hin
    rcases hpurged order hin with hold | rfl
    · exact List.mem_append_left _ (h.held.purged order hold)
    · exact List.mem_append_right _ List.mem_cons_self

/-- An event that was never applied is given up. -/
theorem Kept.expire (h : Kept told s) (event : Event) :
    Kept (told ++ (s.expire event).2) (s.expire event).1 := by
  unfold Client.expire
  by_cases hin : event ∈ s.unapplied
  · rw [if_pos hin]
    have htold : Kept (told ++ [.expired event]) s := by
      refine h.settle ⟨rfl, rfl⟩ (by simp) rfl rfl rfl ?_ ?_
      · exact fun other hin => .inl hin
      · exact fun order hin => .inl hin
    apply htold.forget
    exact .inr (.inr (List.mem_append_right _ List.mem_cons_self))
  · rwa [if_neg hin, List.append_nil]

/-- An event is published. -/
theorem Kept.published (h : Kept told s) (event : Event) : Kept told (s.published event) := by
  unfold Client.published
  by_cases hdone : event ∈ s.unapplied ∧ s.settled event
  · rw [if_pos hdone]
    exact h.forget event (h.held.settled hdone.2)
  · rwa [if_neg hdone]

/-- Several events are sent. -/
theorem Kept.sends (h : Kept told s) (events : List Event) :
    Kept (told ++ (sends makes).told s events) ((sends makes).after s events) := by
  induction events generalizing told s with
  | nil => rwa [Machine.told_nil, List.append_nil]
  | cons event events ih =>
    rw [Machine.told_cons, ← List.append_assoc]
    exact ih (h.sendOrderEvent event)

/-- Several items are passed on. -/
theorem Kept.passes (h : Kept told s) (records : List Handed) :
    Kept (told ++ (passes makes).told s records) ((passes makes).after s records) := by
  induction records generalizing told s with
  | nil => rwa [Machine.told_nil, List.append_nil]
  | cons handed records ih =>
    rw [Machine.told_cons, ← List.append_assoc]
    apply ih
    have hsent : Kept (told ++ (Outbox.sends makes).told s handed.own)
        ((Outbox.sends makes).after s handed.own) := h.sends handed.own
    show Kept (told ++ ((Outbox.sends makes).told s handed.own ++ _)) _
    rw [← List.append_assoc]
    exact hsent.place handed.item

/-- Every step keeps the order. -/
theorem Kept.step (h : Kept told s) (input : Input) :
    Kept (told ++ ((machine makes).step s input).2) ((machine makes).step s input).1 := by
  cases input with
  | handleRecords records => exact h.passes records
  | sendOrderEvent event => exact h.sendOrderEvent event
  | deliverOutbox => exact h.deliverOutbox
  | published event =>
    have hpublished := h.published event
    rwa [← List.append_nil told] at hpublished
  | expire event => exact h.expire event
  | apply event =>
    show Kept (told ++ [.applied event]) { s with applied := event :: s.applied }
    refine h.settle ⟨rfl, rfl⟩ (by simp) rfl rfl rfl ?_ ?_
    · intro other hin
      rcases List.mem_cons.mp hin with rfl | hin
      · exact .inr rfl
      · exact .inl hin
    · exact fun order hin => .inl hin
  | purge order =>
    show Kept (told ++ [.purged order]) { s with purged := order :: s.purged }
    refine h.settle ⟨rfl, rfl⟩ (by simp) rfl rfl rfl ?_ ?_
    · exact fun event hin => .inl hin
    · intro other hin
      rcases List.mem_cons.mp hin with rfl | hin
      · exact .inr rfl
      · exact .inl hin

end Kept

/-- Whatever happens, everything handed in is delivered in this order, each report behind the events sent
before it, and a delivery task attends to what is held. -/
theorem outbox_keeps_order (makes : ℕ → List Event) (inputs : List Input) :
    KeepsOrder makes AllSettled inputs := by
  have hempty : Kept [] {} := by
    refine ⟨⟨rfl, ?_, ?_, ?_, ?_⟩, fun hne => absurd rfl hne⟩
    · intro before item later hsplit
      simp at hsplit
    · intro event hin
      cases hin
    · intro event hin
      cases hin
    · intro order hin
      cases hin
  have hkept := (machine makes).told_invariant (fun told s input h => h.step input) hempty inputs
  exact ⟨hkept.held.order, hkept.held.behind, hkept.attended⟩

/-- An event whose order is purged is never applied, and a report behind it is delivered before it
expires. -/
theorem purged_not_waited_for : ¬ KeepsOrder (fun _ => []) AllApplied
    [.sendOrderEvent ⟨1, "O-1"⟩, .purge "O-1", .handleRecords [⟨[], .resent "7"⟩]] := by
  intro h
  have hdone := h.behind
    [.handed (.deferred ⟨1, "O-1"⟩), .delivered (.deferred ⟨1, "O-1"⟩), .sent ⟨1, "O-1"⟩, .purged "O-1",
      .handed (.resent "7")] (.resent "7") [] (by decide) rfl
  rcases hdone ⟨1, "O-1"⟩ (by decide) with happlied | hexpired
  · exact absurd happlied (by decide)
  · exact absurd hexpired (by decide)

end Outbox

end NautilusCtrader
