import NautilusCtrader.RateLimit
import Mathlib.Data.List.TakeWhile

/-!
# Who is served next

The heap of a group holds every call that waits for its turn there, and beside them only entries
whose call is over. So what `_dispatch` grants is the turn of the least of those waiting, and as a
dispatcher runs for as long as a heap holds one that waits, none is left behind.
-/

namespace NautilusCtrader

open Common

namespace RateLimit

/-- The order of the heap: by priority, then by arrival. -/
def Before (a b : Entry) : Prop := a.1 < b.1 ∨ a.1 = b.1 ∧ a.2 ≤ b.2

instance : DecidableRel Before := fun a b =>
  inferInstanceAs (Decidable (a.1 < b.1 ∨ a.1 = b.1 ∧ a.2 ≤ b.2))

instance : Std.Total Before := ⟨fun a b => by unfold Before; omega⟩

instance : IsTrans Entry Before := ⟨fun a b c => by unfold Before; omega⟩

/-- An entry is not after itself. -/
theorem Before.refl (a : Entry) : Before a a := .inr ⟨rfl, le_rfl⟩

/-! ## Where a call is -/

/-- Where a call of `submit` is: in the queue with a future, or in `send()` without one. -/
structure Place where
  group : GroupName
  priority : ℕ
  future : Option Future
deriving DecidableEq, Repr

/-- A future that is still pending is done. -/
def Place.settled (future : Future) (place : Place) : Place :=
  if place.future = some .pending then { place with future := some future } else place

def Stage.future : Stage → Option Future
  | .waiting _ future => some future
  | .sending => none

def Submit.place (submit : Submit) : Place :=
  ⟨submit.group, submit.priority.value, submit.stage.future⟩

namespace Scheduler

/-- Where the call of a sequence number is, if it is under way. -/
def place? (s : Scheduler) (sequence : ℕ) : Option Place :=
  (s.submits.get? sequence).map Submit.place

/-- A call waits for its turn in a group, under this entry of its heap. -/
def Waits (s : Scheduler) (name : GroupName) (entry : Entry) : Prop :=
  s.place? entry.2 = some ⟨name, entry.1, some .pending⟩

/-- A call has been granted its turn, and has yet to wake. -/
def HasTurn (s : Scheduler) (sequence : ℕ) : Prop :=
  ∃ group priority, s.place? sequence = some ⟨group, priority, some .granted⟩

/-- The clock moves no call. -/
@[simp] theorem place?_read (s : Scheduler) (elapsed : ℚ≥0) : (s.read elapsed).place? = s.place? := rfl

/-- Nor do the groups. -/
@[simp] theorem place?_setGroup (s : Scheduler) (name : GroupName) (g : Group) :
    (s.setGroup name g).place? = s.place? := rfl

/-- Only the call that is dropped is gone. -/
theorem place?_drop (s : Scheduler) (sequence call : ℕ) :
    (s.drop sequence).place? call = if call = sequence then none else s.place? call := by
  unfold place? drop
  rw [Dict.get?_erase]
  split <;> rfl

/-- A call is where it is put. -/
theorem place?_set (s : Scheduler) (sequence call : ℕ) (submit : Submit) :
    ({ s with submits := s.submits.set sequence submit } : Scheduler).place? call =
      if call = sequence then some submit.place else s.place? call := by
  unfold place?
  rw [Dict.get?_set]
  by_cases hcall : call = sequence
  · rw [if_pos hcall, if_pos hcall.symm]
    rfl
  · rw [if_neg hcall, if_neg (Ne.symm hcall)]

/-- A call that is settled has its future. -/
theorem place?_settle (s : Scheduler) (sequence call : ℕ) (future : Future) :
    (s.settle sequence future).place? call =
      if call = sequence then (s.place? call).map (Place.settled future) else s.place? call := by
  unfold settle
  split
  · rename_i group priority waited attempt queuedAt hget
    rw [place?_set]
    by_cases hcall : call = sequence
    · subst hcall
      simp [place?, hget, Submit.place, Stage.future, Place.settled]
    · rw [if_neg hcall, if_neg hcall]
  · rename_i hnot
    by_cases hcall : call = sequence
    · subst hcall
      rw [if_pos rfl]
      cases hget : s.submits.get? call with
      | none => simp [place?, hget]
      | some submit =>
        obtain ⟨group, priority, waited, attempt, stage⟩ := submit
        have hpending : stage.future ≠ some .pending := by
          intro heq
          cases stage with
          | sending => cases heq
          | waiting queuedAt future =>
            obtain rfl : future = .pending := Option.some.inj heq
            exact hnot group priority waited attempt queuedAt hget
        simp [place?, hget, Submit.place, Place.settled, hpending]
    · rw [if_neg hcall]

/-- A future that has failed is done for good. -/
theorem map_settled_settled (message : String) (place : Option Place) :
    (place.map (Place.settled (.failed message))).map (Place.settled (.failed message)) =
      place.map (Place.settled (.failed message)) := by
  rw [Option.map_map]
  congr 1
  funext place
  unfold Function.comp Place.settled
  by_cases hpending : place.future = some .pending
  · simp [hpending]
  · simp [hpending]

/-- Calls that fail have the failure as their future. -/
theorem place?_failEntries (message : String) (s : Scheduler) (entries : List Entry) (call : ℕ) :
    (failEntries message s entries).place? call =
      if call ∈ entries.map Prod.snd then (s.place? call).map (Place.settled (.failed message))
      else s.place? call := by
  induction entries generalizing s with
  | nil => rfl
  | cons entry rest ih =>
    show (failEntries message (s.settle entry.2 (.failed message)) rest).place? call = _
    rw [ih, place?_settle]
    simp only [List.map_cons, List.mem_cons]
    by_cases hentry : call = entry.2
    · by_cases hrest : call ∈ rest.map Prod.snd
      · rw [if_pos hrest, if_pos hentry, if_pos (.inl hentry), map_settled_settled]
      · rw [if_neg hrest, if_pos hentry, if_pos (.inl hentry)]
    · by_cases hrest : call ∈ rest.map Prod.snd
      · rw [if_pos hrest, if_neg hentry, if_pos (.inr hrest)]
      · rw [if_neg hrest, if_neg hentry, if_neg (not_or.mpr ⟨hentry, hrest⟩)]

/-- After `fail_all` a call is where it was, but for the futures of the heaps, which have failed. -/
theorem place?_failAll (message : String) (s : Scheduler) (call : ℕ) :
    (s.failAll message).place? call = (s.place? call).map (Place.settled (.failed message)) ∨
      (s.failAll message).place? call = s.place? call ∧
        ∀ name, call ∉ (s.groups name).heap.map Prod.snd := by
  have hgroup : ∀ (s : Scheduler) (name : GroupName), (failGroup message s name).place? call =
      if call ∈ (s.groups name).heap.map Prod.snd then
        (s.place? call).map (Place.settled (.failed message))
      else s.place? call := by
    intro s name
    unfold failGroup
    dsimp only
    rw [place?_setGroup, place?_failEntries, setGroup_groups_self]
    rfl
  have hother : ((failGroup message { s with failed := some message } .historical).groups
      .other).heap = (s.groups .other).heap := by
    obtain ⟨submits, heq⟩ := failGroup_eq message { s with failed := some message } .historical
    rw [heq]
    simp
  unfold failAll
  rw [hgroup, hgroup, hother]
  by_cases hhistorical : call ∈ (s.groups .historical).heap.map Prod.snd
  · left
    by_cases hin : call ∈ (s.groups .other).heap.map Prod.snd
    · rw [if_pos hin, if_pos hhistorical, map_settled_settled]
      rfl
    · rw [if_neg hin, if_pos hhistorical]
      rfl
  · rw [if_neg hhistorical]
    by_cases hin : call ∈ (s.groups .other).heap.map Prod.snd
    · rw [if_pos hin]
      exact .inl rfl
    · rw [if_neg hin]
      refine .inr ⟨rfl, fun name => ?_⟩
      cases name with
      | historical => exact hhistorical
      | other => exact hin

/-- A call is pending just if it waits in its group. -/
theorem isPending_iff (s : Scheduler) (sequence : ℕ) :
    s.isPending sequence = true ↔ ∃ name priority, s.Waits name (priority, sequence) := by
  unfold isPending Waits place?
  cases hget : s.submits.get? sequence with
  | none => simp [hget]
  | some submit =>
    obtain ⟨group, priority, waited, attempt, stage⟩ := submit
    cases stage with
    | sending => simp [hget, Submit.place, Stage.future]
    | waiting queuedAt future =>
      cases future <;> simp [hget, Submit.place, Stage.future]

end Scheduler

/-! ## The heaps -/

/-- What holds of the heaps between two steps: each is sorted and names a call once, it has every
call that waits in its group, and what else is in it belongs to calls that are over. -/
structure Queued (s : Scheduler) : Prop where
  sorted : ∀ name, (s.groups name).heap.Pairwise Before
  distinct : ∀ name, ((s.groups name).heap.map Prod.snd).Nodup
  fresh : ∀ name, ∀ entry ∈ (s.groups name).heap, entry.2 < s.sequence
  known : ∀ sequence, s.place? sequence ≠ none → sequence < s.sequence
  waiting : ∀ name entry, s.Waits name entry → entry ∈ (s.groups name).heap
  inHeap : ∀ name, ∀ entry ∈ (s.groups name).heap, s.place? entry.2 = none ∨ s.Waits name entry
  served : ∀ name entry, s.Waits name entry → (s.groups name).dispatching = true

/-- A step that queues nothing. -/
structure Shrinks (s s' : Scheduler) : Prop where
  sequence : s.sequence ≤ s'.sequence
  heap : ∀ name, (s'.groups name).heap.Sublist (s.groups name).heap
  waits : ∀ name entry, s'.Waits name entry → s.Waits name entry
  ended : ∀ sequence, s.place? sequence = none → s'.place? sequence = none
  kept : ∀ name entry, s'.Waits name entry → entry ∈ (s.groups name).heap →
    entry ∈ (s'.groups name).heap
  ends : ∀ name, ∀ entry ∈ (s'.groups name).heap, s.Waits name entry →
    s'.place? entry.2 = none ∨ s'.Waits name entry
  served : ∀ name entry, s'.Waits name entry → (s.groups name).dispatching = true →
    (s'.groups name).dispatching = true

variable {s s' : Scheduler}

namespace Queued

/-- What queues nothing keeps the heaps. -/
theorem shrink (h : Queued s) (hs : Shrinks s s') : Queued s' where
  sorted name := (h.sorted name).sublist (hs.heap name)
  distinct name := (h.distinct name).sublist ((hs.heap name).map _)
  fresh name entry hentry :=
    (h.fresh name entry ((hs.heap name).subset hentry)).trans_le hs.sequence
  known sequence hplace :=
    (h.known sequence fun hnone => hplace (hs.ended sequence hnone)).trans_le hs.sequence
  waiting name entry hwaits :=
    hs.kept name entry hwaits (h.waiting name entry (hs.waits name entry hwaits))
  inHeap name entry hentry := by
    rcases h.inHeap name entry ((hs.heap name).subset hentry) with hnone | hwaits
    · exact .inl (hs.ended entry.2 hnone)
    · exact hs.ends name entry hentry hwaits
  served name entry hwaits :=
    hs.served name entry hwaits (h.served name entry (hs.waits name entry hwaits))

/-- A call that is in the queue of no group. -/
theorem not_mem_of_not_waits (h : Queued s) {sequence : ℕ} {place : Place}
    (hplace : s.place? sequence = some place) (hfuture : place.future ≠ some .pending)
    (name : GroupName) (entry : Entry) (hentry : entry ∈ (s.groups name).heap) :
    entry.2 ≠ sequence := by
  intro heq
  rcases h.inHeap name entry hentry with hnone | hwaits
  · rw [heq, hplace] at hnone
    cases hnone
  · unfold Scheduler.Waits at hwaits
    rw [heq, hplace] at hwaits
    exact hfuture (by rw [Option.some.inj hwaits])

end Queued

namespace Shrinks

/-- Where every group keeps its heap and its dispatcher, and calls end or stay as they wait. -/
theorem of_groups (hsequence : s.sequence ≤ s'.sequence)
    (hheap : ∀ name, (s'.groups name).heap = (s.groups name).heap)
    (hserved : ∀ name, (s.groups name).heap ≠ [] → (s.groups name).dispatching = true →
      (s'.groups name).dispatching = true)
    (hwaits : ∀ name entry, s'.Waits name entry → s.Waits name entry)
    (hover : ∀ sequence, s.place? sequence = none → s'.place? sequence = none)
    (hends : ∀ name entry, s.Waits name entry → s'.place? entry.2 = none ∨ s'.Waits name entry)
    (hqueued : Queued s) : Shrinks s s' where
  sequence := hsequence
  heap name := by rw [hheap]
  waits := hwaits
  ended := hover
  kept name entry _ hentry := by rwa [hheap]
  ends name entry _ := hends name entry
  served name entry hwaits' :=
    hserved name (List.ne_nil_of_mem (hqueued.waiting name entry (hwaits name entry hwaits')))

/-- A call is over. -/
theorem drop (h : Queued s) (sequence : ℕ) : Shrinks s (s.drop sequence) := by
  refine of_groups le_rfl (fun _ => rfl) (fun _ _ hrun => hrun) ?_ ?_ ?_ h
  · intro name entry hwaits
    unfold Scheduler.Waits at hwaits
    rw [Scheduler.place?_drop] at hwaits
    by_cases hentry : entry.2 = sequence
    · rw [if_pos hentry] at hwaits
      cases hwaits
    · rwa [if_neg hentry] at hwaits
  · intro call hnone
    rw [Scheduler.place?_drop]
    by_cases hcall : call = sequence
    · rw [if_pos hcall]
    · rw [if_neg hcall, hnone]
  · intro name entry hwaits
    unfold Scheduler.Waits
    rw [Scheduler.place?_drop]
    by_cases hentry : entry.2 = sequence
    · exact .inl (if_pos hentry)
    · exact .inr (by rwa [if_neg hentry])

/-- The clock is read. -/
theorem read (h : Queued s) (elapsed : ℚ≥0) : Shrinks s (s.read elapsed) :=
  of_groups le_rfl (fun _ => rfl) (fun _ _ hrun => hrun) (fun _ _ hwaits => hwaits)
    (fun _ hnone => hnone) (fun _ _ hwaits => .inr hwaits) h

/-- A group is paused. -/
theorem pause (h : Queued s) (name : GroupName) (secs : ℚ) : Shrinks s (s.pause name secs) := by
  have hgroup : ∀ name', ((s.pause name secs).groups name').heap = (s.groups name').heap ∧
      ((s.pause name secs).groups name').dispatching = (s.groups name').dispatching := by
    intro name'
    unfold Scheduler.pause
    by_cases hname : name' = name
    · subst hname
      rw [Scheduler.setGroup_groups_self]
      exact ⟨rfl, rfl⟩
    · rw [Scheduler.setGroup_groups_of_ne s _ hname]
      exact ⟨rfl, rfl⟩
  refine of_groups le_rfl (fun name' => (hgroup name').1) ?_ (fun _ _ hwaits => hwaits)
    (fun _ hnone => hnone) (fun _ _ hwaits => .inr hwaits) h
  intro name' _ hrun
  rwa [(hgroup name').2]

/-- A call that is not waiting goes to another place where it does not. -/
theorem move (h : Queued s) {sequence : ℕ} {submit : Submit} {place : Place}
    (hplace : s.place? sequence = some place) (hfuture : place.future ≠ some .pending)
    (hsubmit : submit.place.future ≠ some .pending) :
    Shrinks s { s with submits := s.submits.set sequence submit } := by
  refine of_groups le_rfl (fun _ => rfl) (fun _ _ hrun => hrun) ?_ ?_ ?_ h
  · intro name entry hwaits
    unfold Scheduler.Waits at hwaits
    rw [Scheduler.place?_set] at hwaits
    by_cases hentry : entry.2 = sequence
    · rw [if_pos hentry] at hwaits
      exact absurd (by rw [Option.some.inj hwaits]) hsubmit
    · rwa [if_neg hentry] at hwaits
  · intro call hnone
    rw [Scheduler.place?_set]
    by_cases hcall : call = sequence
    · rw [hcall, hplace] at hnone
      cases hnone
    · rwa [if_neg hcall]
  · intro name entry hwaits
    right
    unfold Scheduler.Waits at hwaits ⊢
    rw [Scheduler.place?_set]
    by_cases hentry : entry.2 = sequence
    · rw [hentry, hplace] at hwaits
      exact absurd (by rw [Option.some.inj hwaits]) hfuture
    · rwa [if_neg hentry]

end Shrinks

/-- Where a call that has been granted its turn is. -/
theorem place?_of_granted {sequence attempt : ℕ} {group : GroupName} {priority : RequestPriority}
    {waited queuedAt : ℚ} {future : Future}
    (hget : s.submits.get? sequence =
      some ⟨group, priority, waited, attempt, .waiting queuedAt future⟩) :
    s.place? sequence = some ⟨group, priority.value, some future⟩ := by
  unfold Scheduler.place?
  rw [hget]
  rfl

namespace Queued

/-- A call is dropped. -/
theorem drop (h : Queued s) (sequence : ℕ) : Queued (s.drop sequence) :=
  h.shrink (Shrinks.drop h sequence)

/-- A call wakes. -/
theorem wake (h : Queued s) (sequence : ℕ) (elapsed : ℚ≥0) : Queued (s.wake sequence elapsed).1 := by
  unfold Scheduler.wake
  split
  case h_1 hget =>
    have hread := h.shrink (Shrinks.read h elapsed)
    have hplace : (s.read elapsed).place? sequence = _ := place?_of_granted (s := s) hget
    exact hread.shrink (Shrinks.move hread hplace (by simp)
      (by simp [Submit.place, Stage.future]))
  · exact h.drop sequence
  · exact h.drop sequence
  · exact h

/-- An attempt is queued, which fails at once if the scheduler has or its time is up. -/
theorem waitTurn (h : Queued s) {sequence : ℕ} (hsequence : sequence < s.sequence)
    (hout : ∀ name, ∀ entry ∈ (s.groups name).heap, entry.2 ≠ sequence) (submit : Submit)
    (elapsed : ℚ≥0) : Queued (s.waitTurn sequence submit elapsed).1 := by
  unfold Scheduler.waitTurn
  split
  · exact h.drop sequence
  by_cases hbudget : s.pacing.queueTimeoutSecs - submit.waited ≤ 0
  · rw [if_pos hbudget]
    exact h.drop sequence
  rw [if_neg hbudget]
  dsimp only
  set pushed : Scheduler := (s.read elapsed).setGroup submit.group
    (((s.read elapsed).groups submit.group).push (submit.priority.value, sequence)) with hpushed
  have hself : pushed.groups submit.group =
      (s.groups submit.group).push (submit.priority.value, sequence) :=
    Scheduler.setGroup_groups_self _ _ _
  have hheap : (pushed.groups submit.group).heap = (s.groups submit.group).heap.orderedInsert Before
      (submit.priority.value, sequence) := by
    rw [hself]
    rfl
  have hother : ∀ name, name ≠ submit.group → pushed.groups name = s.groups name :=
    fun name hname => Scheduler.setGroup_groups_of_ne _ _ hname
  -- Any entry of a heap is the one pushed, or it was there and belongs to another call.
  have hmem : ∀ name, ∀ entry ∈ (pushed.groups name).heap,
      (name = submit.group ∧ entry = (submit.priority.value, sequence)) ∨
        entry ∈ (s.groups name).heap := by
    intro name entry hentry
    by_cases hname : name = submit.group
    · subst hname
      rw [hheap, List.mem_orderedInsert] at hentry
      exact hentry.imp_left fun heq => ⟨rfl, heq⟩
    · rw [hother name hname] at hentry
      exact .inr hentry
  have hplace : ∀ call, ({ pushed with
      submits := pushed.submits.set sequence
        { submit with stage := .waiting pushed.clock .pending } } : Scheduler).place? call =
      if call = sequence then some ⟨submit.group, submit.priority.value, some .pending⟩
      else s.place? call := fun call => Scheduler.place?_set pushed sequence call _
  refine ⟨fun name => ?_, fun name => ?_, fun name entry hentry => ?_, fun call hcall => ?_,
    fun name entry hwaits => ?_, fun name entry hentry => ?_, fun name entry hwaits => ?_⟩
  · by_cases hname : name = submit.group
    · subst hname
      show (pushed.groups submit.group).heap.Pairwise Before
      rw [hheap]
      exact (h.sorted _).orderedInsert _ _
    · show (pushed.groups name).heap.Pairwise Before
      rw [hother name hname]
      exact h.sorted name
  · by_cases hname : name = submit.group
    · subst hname
      show ((pushed.groups submit.group).heap.map Prod.snd).Nodup
      rw [hheap, ((List.perm_orderedInsert Before _ _).map Prod.snd).nodup_iff, List.map_cons,
        List.nodup_cons]
      refine ⟨fun hin => ?_, h.distinct _⟩
      obtain ⟨entry, hentry, heq⟩ := List.mem_map.mp hin
      exact hout _ entry hentry heq
    · show ((pushed.groups name).heap.map Prod.snd).Nodup
      rw [hother name hname]
      exact h.distinct name
  · rcases hmem name entry hentry with ⟨-, rfl⟩ | hentry
    · exact hsequence
    · exact h.fresh name entry hentry
  · by_cases heq : call = sequence
    · rw [heq]
      exact hsequence
    · rw [hplace, if_neg heq] at hcall
      exact h.known call hcall
  · unfold Scheduler.Waits at hwaits
    rw [hplace] at hwaits
    show entry ∈ (pushed.groups name).heap
    by_cases heq : entry.2 = sequence
    · rw [if_pos heq] at hwaits
      obtain ⟨rfl, hpriority⟩ : submit.group = name ∧ submit.priority.value = entry.1 := by
        simpa using hwaits
      rw [hheap, List.mem_orderedInsert]
      exact .inl (Prod.ext hpriority.symm heq)
    · rw [if_neg heq] at hwaits
      have hentry := h.waiting name entry hwaits
      by_cases hname : name = submit.group
      · subst hname
        rw [hheap, List.mem_orderedInsert]
        exact .inr hentry
      · rwa [hother name hname]
  · rcases hmem name entry hentry with ⟨rfl, rfl⟩ | hentry
    · exact .inr ((hplace sequence).trans (if_pos rfl))
    · unfold Scheduler.Waits
      rw [hplace, if_neg (hout name entry hentry)]
      exact h.inHeap name entry hentry
  · show (pushed.groups name).dispatching = true
    by_cases hname : name = submit.group
    · subst hname
      rw [hself]
      rfl
    · unfold Scheduler.Waits at hwaits
      rw [hplace] at hwaits
      by_cases heq : entry.2 = sequence
      · rw [if_pos heq] at hwaits
        exact absurd (by simpa using hwaits : submit.group = name ∧ _).1.symm hname
      · rw [if_neg heq] at hwaits
        rw [hother name hname]
        exact h.served name entry hwaits

/-- A call is submitted, behind those of its priority. -/
theorem submit (h : Queued s) (group : GroupName) (priority : RequestPriority) (elapsed : ℚ≥0) :
    Queued (s.submit group priority elapsed).1 := by
  have hnext : Queued { s with sequence := s.sequence + 1 } :=
    h.shrink (Shrinks.of_groups (Nat.le_succ _) (fun _ => rfl) (fun _ _ hrun => hrun)
      (fun _ _ hwaits => hwaits) (fun _ hnone => hnone) (fun _ _ hwaits => .inr hwaits) h)
  exact hnext.waitTurn (Nat.lt_succ_self _)
    (fun name entry hentry => (h.fresh name entry hentry).ne) _ _

/-- A refused call is queued again under its old number, which its group's heap has not kept. -/
theorem refused (h : Queued s) (sequence : ℕ) (retryAfterSecs : ℚ) (elapsed requeued : ℚ≥0) :
    Queued (s.refused sequence retryAfterSecs elapsed requeued).1 := by
  unfold Scheduler.refused
  split
  case h_2 => exact h
  case h_1 group priority waited attempt hget =>
    have hread := h.shrink (Shrinks.read h elapsed)
    have hpaused := hread.shrink (Shrinks.pause hread group
      (min (retryAfterSecs + pauseMarginSecs) s.pacing.maxPauseSecs))
    have hplace : s.place? sequence = some ⟨group, priority.value, none⟩ := by
      unfold Scheduler.place?
      rw [hget]
      rfl
    dsimp only
    split
    · refine hpaused.waitTurn ?_ (hpaused.not_mem_of_not_waits hplace (by simp)) _ _
      exact h.known sequence (by rw [hplace]; simp)
    · exact hpaused.drop sequence

/-- After `fail_all` no call waits, and no heap holds anything. -/
theorem failAll (h : Queued s) (message : String) : Queued (s.failAll message) := by
  have hheap : ∀ name, ((s.failAll message).groups name).heap = [] := by
    intro name
    obtain ⟨submits, heq⟩ := failAll_eq message s
    rw [heq]
  have hnone : ∀ name entry, ¬ (s.failAll message).Waits name entry := by
    intro name entry hwaits
    unfold Scheduler.Waits at hwaits
    rcases Scheduler.place?_failAll message s entry.2 with hfailed | ⟨hsame, hout⟩
    · rw [hfailed] at hwaits
      obtain ⟨place, -, hsettled⟩ := Option.map_eq_some_iff.mp hwaits
      -- A future that was pending has failed, and any other was not pending to begin with.
      unfold Place.settled at hsettled
      by_cases hpending : place.future = some .pending
      · rw [if_pos hpending] at hsettled
        simp at hsettled
      · rw [if_neg hpending] at hsettled
        exact hpending (by rw [hsettled])
    · rw [hsame] at hwaits
      exact hout name (List.mem_map.mpr ⟨entry, h.waiting name entry hwaits, rfl⟩)
  have hsequence : (s.failAll message).sequence = s.sequence :=
    (Scheduler.sameSetup_failAll message s).2
  refine h.shrink ⟨hsequence.ge, fun name => ?_, fun name entry hwaits => ?_, fun call hover => ?_,
    fun name entry hwaits => ?_, fun name entry hentry => ?_, fun name entry hwaits => ?_⟩
  · rw [hheap name]
    exact List.nil_sublist _
  · exact absurd hwaits (hnone name entry)
  · rcases Scheduler.place?_failAll message s call with hfailed | ⟨hsame, -⟩
    · rw [hfailed, hover]
      rfl
    · rw [hsame, hover]
  · exact absurd hwaits (hnone name entry)
  · rw [hheap name] at hentry
    cases hentry
  · exact absurd hwaits (hnone name entry)

/-- The heaps survive a reset, and each that is not empty has a dispatcher. -/
theorem reset (h : Queued s) : Queued s.reset := by
  refine h.shrink (Shrinks.of_groups le_rfl (fun _ => rfl) ?_ (fun _ _ hwaits => hwaits)
    (fun _ hnone => hnone) (fun _ _ hwaits => .inr hwaits) h)
  intro name hne _
  show (!(s.groups name).heap.isEmpty) = true
  simpa using hne

end Queued

/-! ## A turn of the dispatcher -/

/-- What one turn of the loop of `_dispatch` does to the queue: nothing; it ends, for no call waits;
or it drops dead entries and, unless the group is not ready, grants the turn of the first that is
not. -/
theorem dispatch_queue (s : Scheduler) (name : GroupName) (elapsed : ℚ≥0) :
    s.dispatch name elapsed = (s, none) ∨
    ((∀ entry ∈ (s.groups name).heap, s.isPending entry.2 = false) ∧
      s.dispatch name elapsed =
        (s.setGroup name { s.groups name with heap := [], dispatching := false }, none)) ∨
    ∃ dead entry rest granted,
      (s.groups name).heap = dead ++ entry :: rest ∧
      (∀ other ∈ dead, s.isPending other.2 = false) ∧
      s.isPending entry.2 = true ∧
      (s.dispatch name elapsed = ((s.read elapsed).setGroup name
          { s.groups name with heap := entry :: rest, granted := granted }, none) ∨
        s.dispatch name elapsed = (((s.read elapsed).setGroup name
          { s.groups name with heap := rest, granted := granted }).settle entry.2 .granted,
            some (s.clock + elapsed))) := by
  have hsplit := List.takeWhile_append_dropWhile
    (p := fun entry : Entry => !s.isPending entry.2) (l := (s.groups name).heap)
  have hdead : ∀ other ∈ (s.groups name).heap.takeWhile fun entry => !s.isPending entry.2,
      s.isPending other.2 = false := by
    intro other hother
    simpa using List.mem_takeWhile_imp hother
  unfold Scheduler.dispatch
  dsimp only
  split
  · exact .inl rfl
  right
  split
  case h_1 hnil =>
    rw [hnil, List.append_nil] at hsplit
    exact .inl ⟨fun entry hentry => hdead entry (by rwa [hsplit]), rfl⟩
  case h_2 entry rest hcons =>
    right
    have hhead : s.isPending entry.2 = true := by
      have := List.head_dropWhile_not (fun entry : Entry => !s.isPending entry.2)
        (l := (s.groups name).heap) (by simp [hcons])
      simpa [hcons] using this
    rw [hcons] at hsplit
    split
    · exact ⟨_, entry, rest, _, hsplit.symm, hdead, hhead, .inl rfl⟩
    · exact ⟨_, entry, rest, _, hsplit.symm, hdead, hhead, .inr rfl⟩

/-- Behind the entries that are dead, the first that is not is the least of all that wait. -/
theorem Queued.least (h : Queued s) {name : GroupName} {dead : List Entry} {entry : Entry}
    {rest : List Entry} (hheap : (s.groups name).heap = dead ++ entry :: rest)
    (hdead : ∀ other ∈ dead, s.isPending other.2 = false) (hpending : s.isPending entry.2 = true) :
    s.Waits name entry ∧ ∀ other, s.Waits name other → Before entry other := by
  have hentry : entry ∈ (s.groups name).heap := by
    rw [hheap]
    exact List.mem_append_right _ List.mem_cons_self
  refine ⟨?_, fun other hwaits => ?_⟩
  · rcases h.inHeap name entry hentry with hnone | hwaits
    · obtain ⟨name', priority, hwaits⟩ := (s.isPending_iff entry.2).mp hpending
      exact absurd (hnone.symm.trans hwaits) (by simp)
    · exact hwaits
  · have hother := h.waiting name other hwaits
    have hsorted := h.sorted name
    rw [hheap] at hother hsorted
    rcases List.mem_append.mp hother with hin | hin
    · have hnot := hdead other hin
      rw [(s.isPending_iff other.2).mpr ⟨name, other.1, hwaits⟩] at hnot
      cases hnot
    · rcases List.mem_cons.mp hin with rfl | hin
      · exact Before.refl other
      · exact (List.pairwise_cons.mp (List.pairwise_append.mp hsorted).2.1).1 other hin

/-- Dead entries leave a heap unnoticed, with all that waits behind them kept. -/
theorem Shrinks.prune (h : Queued s) {name : GroupName} {g : Group} {dead rest : List Entry}
    (hheap : (s.groups name).heap = dead ++ rest)
    (hdead : ∀ other ∈ dead, s.isPending other.2 = false) (hrest : g.heap = rest)
    (hdispatching : rest ≠ [] → g.dispatching = (s.groups name).dispatching) :
    Shrinks s (s.setGroup name g) := by
  have hkept : ∀ entry, s.Waits name entry → entry ∈ (s.groups name).heap → entry ∈ rest := by
    intro entry hwaits hentry
    rw [hheap] at hentry
    rcases List.mem_append.mp hentry with hin | hin
    · have hnot := hdead entry hin
      rw [(s.isPending_iff entry.2).mpr ⟨name, entry.1, hwaits⟩] at hnot
      cases hnot
    · exact hin
  refine ⟨le_rfl, fun name' => ?_, fun _ _ hwaits => hwaits, fun _ hnone => hnone,
    fun name' entry hwaits hentry => ?_, fun _ _ _ hwaits => .inr hwaits,
    fun name' entry hwaits hrun => ?_⟩
  · by_cases hname : name' = name
    · subst hname
      rw [Scheduler.setGroup_groups_self, hrest, hheap]
      exact List.sublist_append_right _ _
    · rw [Scheduler.setGroup_groups_of_ne s g hname]
  · by_cases hname : name' = name
    · subst hname
      rw [Scheduler.setGroup_groups_self, hrest]
      exact hkept entry hwaits hentry
    · rwa [Scheduler.setGroup_groups_of_ne s g hname]
  · by_cases hname : name' = name
    · subst hname
      have hin := hkept entry hwaits (h.waiting name' entry hwaits)
      rwa [Scheduler.setGroup_groups_self, hdispatching (List.ne_nil_of_mem hin)]
    · rwa [Scheduler.setGroup_groups_of_ne s g hname]

/-- The head of a heap is granted its turn. -/
theorem Shrinks.grant (h : Queued s) {name : GroupName} {entry : Entry} {rest : List Entry}
    (hheap : (s.groups name).heap = entry :: rest) (hwaits : s.Waits name entry) {g : Group}
    (hrest : g.heap = rest) (hdispatching : g.dispatching = (s.groups name).dispatching) :
    Shrinks s ((s.setGroup name g).settle entry.2 .granted) := by
  have hgroups : ∀ name', ((s.setGroup name g).settle entry.2 .granted).groups name' =
      (s.setGroup name g).groups name' := by
    intro name'
    obtain ⟨submits, heq⟩ := settle_eq (s.setGroup name g) entry.2 .granted
    rw [heq]
  have hself : ((s.setGroup name g).settle entry.2 .granted).place? entry.2 =
      some ⟨name, entry.1, some .granted⟩ := by
    rw [Scheduler.place?_settle, if_pos rfl, Scheduler.place?_setGroup, hwaits]
    rfl
  have hother : ∀ call, call ≠ entry.2 →
      ((s.setGroup name g).settle entry.2 .granted).place? call = s.place? call := by
    intro call hcall
    rw [Scheduler.place?_settle, if_neg hcall, Scheduler.place?_setGroup]
  have hwaits' : ∀ name' other, ((s.setGroup name g).settle entry.2 .granted).Waits name' other →
      other.2 ≠ entry.2 ∧ s.Waits name' other := by
    intro name' other hother'
    unfold Scheduler.Waits at hother'
    by_cases heq : other.2 = entry.2
    · rw [heq, hself] at hother'
      simp at hother'
    · rw [hother _ heq] at hother'
      exact ⟨heq, hother'⟩
  refine ⟨(Scheduler.sameSetup_settle (s.setGroup name g) entry.2 .granted).2.ge, fun name' => ?_,
    fun name' other hother' => (hwaits' name' other hother').2, fun call hnone => ?_,
    fun name' other hother' hin => ?_, fun name' other hin hother' => ?_,
    fun name' other hother' hrun => ?_⟩
  · rw [hgroups]
    by_cases hname : name' = name
    · subst hname
      rw [Scheduler.setGroup_groups_self, hrest, hheap]
      exact List.sublist_cons_self _ _
    · rw [Scheduler.setGroup_groups_of_ne s g hname]
  · by_cases heq : call = entry.2
    · rw [heq, hwaits] at hnone
      cases hnone
    · rw [hother call heq, hnone]
  · rw [hgroups]
    by_cases hname : name' = name
    · subst hname
      rw [Scheduler.setGroup_groups_self, hrest]
      rw [hheap] at hin
      exact (List.mem_cons.mp hin).resolve_left fun heq =>
        (hwaits' name' other hother').1 (by rw [heq])
    · rwa [Scheduler.setGroup_groups_of_ne s g hname]
  · right
    unfold Scheduler.Waits
    rw [hother, hother']
    -- The entry granted is in no heap any more.
    intro heq
    have hname : name' = name := by
      have hplace := hother'
      unfold Scheduler.Waits at hplace
      rw [heq, hwaits] at hplace
      simpa using (congrArg Place.group (Option.some.inj hplace)).symm
    subst hname
    rw [hgroups, Scheduler.setGroup_groups_self, hrest] at hin
    have hdistinct := h.distinct name'
    rw [hheap, List.map_cons, List.nodup_cons] at hdistinct
    exact hdistinct.1 (List.mem_map.mpr ⟨other, hin, heq⟩)
  · rw [hgroups]
    by_cases hname : name' = name
    · subst hname
      rwa [Scheduler.setGroup_groups_self, hdispatching]
    · rwa [Scheduler.setGroup_groups_of_ne s g hname]

/-- A dispatch grants what is first. -/
theorem Queued.dispatch (h : Queued s) (name : GroupName) (elapsed : ℚ≥0) :
    Queued (s.dispatch name elapsed).1 := by
  rcases dispatch_queue s name elapsed with
    heq | ⟨hdead, heq⟩ | ⟨dead, entry, rest, granted, hheap, hdead, hpending, heq⟩
  · rw [heq]
    exact h
  · rw [heq]
    exact h.shrink (Shrinks.prune h (List.append_nil _).symm hdead rfl fun hne => absurd rfl hne)
  · have hread := h.shrink (Shrinks.read h elapsed)
    have hpruned := hread.shrink (Shrinks.prune hread hheap hdead
      (g := { s.groups name with heap := entry :: rest, granted := granted }) rfl fun _ => rfl)
    rcases heq with heq | heq
    · rw [heq]
      exact hpruned
    · have hwaits := (h.least hheap hdead hpending).1
      have hhead : (((s.read elapsed).setGroup name { s.groups name with
          heap := entry :: rest, granted := granted }).groups name).heap = entry :: rest := by
        rw [Scheduler.setGroup_groups_self]
      have hgrant := hpruned.shrink (Shrinks.grant hpruned hhead hwaits
        (g := { s.groups name with heap := rest, granted := granted }) rfl
        (by rw [Scheduler.setGroup_groups_self]))
      rw [heq]
      simpa [Scheduler.setGroup] using hgrant

/-- Nothing is queued at the start. -/
theorem queued_new (pacing : Pacing) (clock : ℚ) : Queued (new pacing clock) where
  sorted _ := List.Pairwise.nil
  distinct _ := List.nodup_nil
  fresh _ _ hentry := by cases hentry
  known _ hplace := absurd rfl hplace
  waiting _ _ hwaits := by cases hwaits
  inHeap _ _ hentry := by cases hentry
  served _ _ hwaits := by cases hwaits

/-- Every step keeps the queues. -/
theorem queued_step (h : Queued s) (action : Action) : Queued (machine.step s action).1 := by
  cases action with
  | submit group priority elapsed => exact h.submit group priority elapsed
  | wake sequence elapsed => exact h.wake sequence elapsed
  | refused sequence retryAfterSecs elapsed requeued =>
    exact h.refused sequence retryAfterSecs elapsed requeued
  | finish sequence => exact h.drop sequence
  | dispatch name elapsed => exact h.dispatch name elapsed
  | failAll message => exact h.failAll message
  | reset => exact h.reset

/-! ## Who is granted a turn -/

section Turns

variable {call : ℕ}

/-- Dropping a call gives no turn. -/
theorem hasTurn_drop {sequence : ℕ} (h : (s.drop sequence).HasTurn call) : s.HasTurn call := by
  obtain ⟨group, priority, hplace⟩ := h
  rw [Scheduler.place?_drop] at hplace
  by_cases hcall : call = sequence
  · rw [if_pos hcall] at hplace
    cases hplace
  · rw [if_neg hcall] at hplace
    exact ⟨group, priority, hplace⟩

/-- A call put elsewhere than where a turn has been granted. -/
theorem hasTurn_set {sequence : ℕ} {submit : Submit}
    (hsubmit : submit.place.future ≠ some .granted)
    (h : ({ s with submits := s.submits.set sequence submit } : Scheduler).HasTurn call) :
    s.HasTurn call := by
  obtain ⟨group, priority, hplace⟩ := h
  rw [Scheduler.place?_set] at hplace
  by_cases hcall : call = sequence
  · rw [if_pos hcall] at hplace
    exact absurd (by rw [Option.some.inj hplace]) hsubmit
  · rw [if_neg hcall] at hplace
    exact ⟨group, priority, hplace⟩

/-- Waiting gives none. -/
theorem hasTurn_waitTurn {sequence : ℕ} {submit : Submit} {elapsed : ℚ≥0}
    (h : (s.waitTurn sequence submit elapsed).1.HasTurn call) : s.HasTurn call := by
  unfold Scheduler.waitTurn at h
  split at h
  · exact hasTurn_drop h
  · split at h
    · exact hasTurn_drop h
    · have hpending : (Submit.place { submit with
          stage := .waiting (s.read elapsed).clock .pending }).future ≠ some .granted := by
        simp [Submit.place, Stage.future]
      exact hasTurn_set (s := (s.read elapsed).setGroup submit.group
        (((s.read elapsed).groups submit.group).push (submit.priority.value, sequence))) hpending h

/-- Waking gives none. -/
theorem hasTurn_wake {sequence : ℕ} {elapsed : ℚ≥0}
    (h : (s.wake sequence elapsed).1.HasTurn call) : s.HasTurn call := by
  unfold Scheduler.wake at h
  split at h
  · exact hasTurn_set (s := s.read elapsed) (by simp [Submit.place, Stage.future]) h
  · exact hasTurn_drop h
  · exact hasTurn_drop h
  · exact h

/-- A refusal gives none. -/
theorem hasTurn_refused {sequence : ℕ} {retryAfterSecs : ℚ} {elapsed requeued : ℚ≥0}
    (h : (s.refused sequence retryAfterSecs elapsed requeued).1.HasTurn call) : s.HasTurn call := by
  unfold Scheduler.refused at h
  split at h
  · dsimp only at h
    split at h
    · exact hasTurn_waitTurn (s := (s.read elapsed).pause _ _) h
    · exact hasTurn_drop (s := (s.read elapsed).pause _ _) h
  · exact h

/-- A failure gives none. -/
theorem hasTurn_failAll {message : String} (h : (s.failAll message).HasTurn call) :
    s.HasTurn call := by
  obtain ⟨group, priority, hplace⟩ := h
  rcases Scheduler.place?_failAll message s call with hfailed | ⟨hsame, -⟩
  · rw [hfailed] at hplace
    obtain ⟨place, hbefore, hsettled⟩ := Option.map_eq_some_iff.mp hplace
    unfold Place.settled at hsettled
    by_cases hpending : place.future = some .pending
    · rw [if_pos hpending] at hsettled
      simp at hsettled
    · rw [if_neg hpending] at hsettled
      exact ⟨group, priority, hsettled ▸ hbefore⟩
  · exact ⟨group, priority, hsame ▸ hplace⟩

/-- A turn of the dispatcher grants nobody's turn, or that of the least entry that waits. -/
theorem Queued.served_least (h : Queued s) (name : GroupName) (elapsed : ℚ≥0) :
    ((s.dispatch name elapsed).2 = none ∧
      ∀ call, (s.dispatch name elapsed).1.HasTurn call → s.HasTurn call) ∨
    ∃ entry time, (s.dispatch name elapsed).2 = some time ∧
      s.Waits name entry ∧ (∀ other, s.Waits name other → Before entry other) ∧
      ¬ s.HasTurn entry.2 ∧ (s.dispatch name elapsed).1.HasTurn entry.2 ∧
      ∀ call, (s.dispatch name elapsed).1.HasTurn call → call = entry.2 ∨ s.HasTurn call := by
  rcases dispatch_queue s name elapsed with
    heq | ⟨-, heq⟩ | ⟨dead, entry, rest, granted, hheap, hdead, hpending, heq | heq⟩
  · rw [heq]
    exact .inl ⟨rfl, fun call hturn => hturn⟩
  · rw [heq]
    exact .inl ⟨rfl, fun call hturn => hturn⟩
  · rw [heq]
    exact .inl ⟨rfl, fun call hturn => hturn⟩
  · obtain ⟨hwaits, hleast⟩ := h.least hheap hdead hpending
    refine .inr ⟨entry, s.clock + elapsed, by rw [heq], hwaits, hleast, ?_, ?_, fun call hturn => ?_⟩
    · rintro ⟨group, priority, hplace⟩
      rw [hwaits] at hplace
      simp at hplace
    · refine ⟨name, entry.1, ?_⟩
      rw [heq]
      dsimp only
      rw [Scheduler.place?_settle, if_pos rfl, Scheduler.place?_setGroup, Scheduler.place?_read,
        hwaits]
      rfl
    · by_cases hcall : call = entry.2
      · exact .inl hcall
      · obtain ⟨group, priority, hplace⟩ := hturn
        rw [heq] at hplace
        dsimp only at hplace
        rw [Scheduler.place?_settle, if_neg hcall] at hplace
        exact .inr ⟨group, priority, hplace⟩

/-- A call is granted its turn by a dispatcher, which tells so, and then it was the least to wait
in its group. -/
theorem Queued.granted_least (h : Queued s) (action : Action) (hbefore : ¬ s.HasTurn call)
    (hafter : (machine.step s action).1.HasTurn call) :
    ∃ name priority time, (machine.step s action).2 = [.granted name time] ∧
      s.Waits name (priority, call) ∧
      ∀ other, s.Waits name other → Before (priority, call) other := by
  cases action with
  | submit group priority elapsed => exact absurd (hasTurn_waitTurn hafter) hbefore
  | wake sequence elapsed => exact absurd (hasTurn_wake hafter) hbefore
  | refused sequence retryAfterSecs elapsed requeued =>
    exact absurd (hasTurn_refused hafter) hbefore
  | finish sequence => exact absurd (hasTurn_drop hafter) hbefore
  | failAll message => exact absurd (hasTurn_failAll hafter) hbefore
  | reset => exact absurd hafter hbefore
  | dispatch name elapsed =>
    rcases h.served_least name elapsed with
      ⟨-, hsame⟩ | ⟨entry, time, htime, hwaits, hleast, -, -, honly⟩
    · exact absurd (hsame call hafter) hbefore
    · obtain rfl : call = entry.2 := (honly call hafter).resolve_right hbefore
      refine ⟨name, entry.1, time, ?_, hwaits, hleast⟩
      show ((s.dispatch name elapsed).2.map (Record.granted name)).toList = _
      rw [htime]
      rfl

/-- What a dispatcher tells of a grant is a turn granted in its group. -/
theorem Queued.granted_told (h : Queued s) {action : Action} {name : GroupName} {time : ℚ}
    (htold : .granted name time ∈ (machine.step s action).2) :
    ∃ entry, s.Waits name entry ∧ (machine.step s action).1.HasTurn entry.2 := by
  cases action with
  | dispatch dispatched elapsed =>
    have htold : .granted name time ∈ ((s.dispatch dispatched elapsed).2.map
      (Record.granted dispatched)).toList := htold
    rcases h.served_least dispatched elapsed with
      ⟨hnone, -⟩ | ⟨entry, served, hserved, hwaits, -, -, hturn, -⟩
    · simp [hnone] at htold
    · obtain ⟨rfl, -⟩ : name = dispatched ∧ time = served := by simpa [hserved] using htold
      exact ⟨entry, hwaits, hturn⟩
  | submit group priority elapsed => simp [machine] at htold
  | wake sequence elapsed => simp [machine] at htold
  | refused sequence retryAfterSecs elapsed requeued => simp [machine] at htold
  | finish sequence => simp [machine] at htold
  | failAll message => simp [machine] at htold
  | reset => simp [machine] at htold

end Turns

/-- However submissions, refusals, timeouts, cancellations, failures, resets and turns of the
dispatchers follow each other: what waits in a group is what its heap holds alive; every turn
granted is that of the least entry waiting in the group, and every grant told is such a turn; a
group in which a call waits has a dispatcher; and no heap holds a priority and number twice. -/
theorem least_served_none_stranded (pacing : Pacing) (clock : ℚ) (actions : List Action) :
    (∀ name entry, (machine.after (new pacing clock) actions).Waits name entry ↔
      entry ∈ ((machine.after (new pacing clock) actions).groups name).heap ∧
        (machine.after (new pacing clock) actions).isPending entry.2 = true) ∧
    (∀ action call, ¬ (machine.after (new pacing clock) actions).HasTurn call →
      (machine.step (machine.after (new pacing clock) actions) action).1.HasTurn call →
        ∃ name priority time,
          (machine.step (machine.after (new pacing clock) actions) action).2 =
            [.granted name time] ∧
          (machine.after (new pacing clock) actions).Waits name (priority, call) ∧
          ∀ other, (machine.after (new pacing clock) actions).Waits name other →
            Before (priority, call) other) ∧
    (∀ action name time,
      .granted name time ∈ (machine.step (machine.after (new pacing clock) actions) action).2 →
        ∃ entry, (machine.after (new pacing clock) actions).Waits name entry ∧
          (machine.step (machine.after (new pacing clock) actions) action).1.HasTurn entry.2) ∧
    (∀ name entry, (machine.after (new pacing clock) actions).Waits name entry →
      ((machine.after (new pacing clock) actions).groups name).dispatching = true) ∧
    ∀ name, ((machine.after (new pacing clock) actions).groups name).heap.Nodup := by
  have hqueued : Queued (machine.after (new pacing clock) actions) :=
    Machine.after_invariant (I := Queued) (fun _ action h => queued_step h action)
      (queued_new pacing clock) actions
  refine ⟨fun name entry => ⟨fun hwaits => ?_, fun ⟨hentry, hpending⟩ => ?_⟩,
    fun action call => hqueued.granted_least action, fun action name time => hqueued.granted_told,
    hqueued.served, fun name => List.Nodup.of_map _ (hqueued.distinct name)⟩
  · exact ⟨hqueued.waiting name entry hwaits,
      (Scheduler.isPending_iff _ entry.2).mpr ⟨name, entry.1, hwaits⟩⟩
  · obtain ⟨name', priority, hwaits⟩ := (Scheduler.isPending_iff _ entry.2).mp hpending
    rcases hqueued.inHeap name entry hentry with hnone | hsame
    · exact absurd (hnone.symm.trans hwaits) (by simp)
    · exact hsame

end RateLimit

end NautilusCtrader
