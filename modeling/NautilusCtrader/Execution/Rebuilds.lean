import NautilusCtrader.Common.Machine

/-!
# Rebuilds of the venue model and the events held meanwhile

While the venue model is rebuilt, the events that arrive are held in one buffer, and its release
applies them in order. Every kind of rebuild uses that buffer: one that begins while it is held joins
it, and one that ends releases it for all. Held events are applied once and in order whatever
happens. That none is applied under a rebuild holds of the runs in which the passes of the start, of
a connect and of a reconnect begin alone (`held_lawful`), and fails where one of them joins another
rebuild (`applied_under_rebuild`).
-/

namespace NautilusCtrader

open Common

namespace Execution

variable {Order Trailing : Type}

/-- `_ModelEvent`: an execution event, or a trailing stop the broker moved. -/
inductive ModelEvent (Order Trailing : Type)
  | execution (event : Order)
  | trailingStop (event : Trailing)
deriving DecidableEq, Repr

/-- What rebuilds the model. -/
inductive Kind
  | connect
  | start
  | reconnect
  /-- `_settle_from_broker`. -/
  | settle
  /-- `_learn_position`. -/
  | learn
deriving DecidableEq, Repr

/-- Where a rebuild stands. -/
inductive Stage
  /-- It holds the buffer and reads the account first. -/
  | preparing
  /-- It is in `_load` or `_reconcile_pass`. -/
  | entered
  /-- It has asked for its snapshot. -/
  | reading
  /-- Its model stands, and it goes on with the buffer held. -/
  | stood
deriving DecidableEq, Repr

structure Rebuild where
  id : ℕ
  kind : Kind
  stage : Stage
deriving DecidableEq, Repr

/-- The fields of the execution client a rebuild reads and writes, with the rebuilds under way. -/
structure Client (Order Trailing : Type) where
  buffer : Option (List (ModelEvent Order Trailing)) := none
  modelStanding : Bool := true
  rebuilding : Bool := false
  /-- The start's mass status the held events wait on. -/
  awaitedReport : Option ℕ := none
  releaseTimer : Bool := false
  rebuilds : List Rebuild := []
  begun : ℕ := 0
deriving DecidableEq, Repr

/-- What happens to events and rebuilds. -/
inductive Record (Order Trailing : Type)
  | arrived (event : ModelEvent Order Trailing)
  | applied (event : ModelEvent Order Trailing)
  | asked (id : ℕ)
  | stood (id : ℕ)
  | failed (id : ℕ)
deriving DecidableEq, Repr

namespace Client

variable (c : Client Order Trailing)

/-- `_hold_buffer`. -/
def holdBuffer : Client Order Trailing :=
  { c with buffer := some (c.buffer.getD []), modelStanding := false, rebuilding := true }

/-- `_stop_awaiting`. -/
def stopAwaiting : Client Order Trailing :=
  { c with awaitedReport := none, releaseTimer := false }

/-- `_await_reconciliation`. -/
def awaitReconciliation (report : ℕ) : Client Order Trailing :=
  { c.stopAwaiting with awaitedReport := some report, releaseTimer := true }

/-! ## Events -/

/-- `_apply_execution_event`: the event reaches the book. -/
def applyExecutionEvent (event : Order) :
    Client Order Trailing × List (Record Order Trailing) :=
  (c, [.applied (.execution event)])

/-- `_on_execution_event`. -/
def onExecutionEvent (event : Order) : Client Order Trailing × List (Record Order Trailing) :=
  match c.buffer with
  | some held => ({ c with buffer := some (held ++ [.execution event]) }, [])
  | none => c.applyExecutionEvent event

/-- `_on_trailing_stop`. -/
def onTrailingStop (event : Trailing) : Client Order Trailing × List (Record Order Trailing) :=
  match c.buffer with
  | some held => ({ c with buffer := some (held ++ [.trailingStop event]) }, [])
  | none => (c, [.applied (.trailingStop event)])

/-- The loop of `_release_buffer` over the held events. -/
def applyHeld (c : Client Order Trailing) :
    List (ModelEvent Order Trailing) → Client Order Trailing × List (Record Order Trailing)
  | [] => (c, [])
  | .trailingStop event :: held =>
    let (c, told) := c.onTrailingStop event
    let (c, later) := c.applyHeld held
    (c, told ++ later)
  | .execution event :: held =>
    let (c, told) := c.applyExecutionEvent event
    let (c, later) := c.applyHeld held
    (c, told ++ later)

/-- `_release_buffer`. -/
def releaseBuffer : Client Order Trailing × List (Record Order Trailing) :=
  let held := c.buffer
  let c := { c.stopAwaiting with buffer := none, rebuilding := false }
  match held with
  | none => ({ c with modelStanding := true }, [])
  | some held =>
    let (c, told) := c.applyHeld held
    ({ c with modelStanding := true }, told)

/-- An event arrives. -/
def arrives : ModelEvent Order Trailing → Client Order Trailing × List (Record Order Trailing)
  | .execution event => c.onExecutionEvent event
  | .trailingStop event => c.onTrailingStop event

/-! ## Rebuilds -/

/-- A rebuild is under way from now on. -/
def add (kind : Kind) (stage : Stage) : Client Order Trailing :=
  { c with rebuilds := c.rebuilds ++ [⟨c.begun, kind, stage⟩], begun := c.begun + 1 }

/-- A rebuild is at another stage. -/
def advance (id : ℕ) (stage : Stage) : Client Order Trailing :=
  { c with
    rebuilds := c.rebuilds.map fun r => if r.id = id then { r with stage := stage } else r }

/-- A rebuild is over. -/
def drop (id : ℕ) : Client Order Trailing :=
  { c with rebuilds := c.rebuilds.filter (·.id ≠ id) }

def find (id : ℕ) : Option Rebuild := c.rebuilds.find? (·.id = id)

/-- A rebuild begins. -/
def begin : Kind → Client Order Trailing
  | .connect => c.holdBuffer.add .connect .preparing
  | .start => c.holdBuffer.add .start .entered
  | .reconnect => c.stopAwaiting.holdBuffer.add .reconnect .preparing
  | .settle => if c.buffer.isSome then c else c.holdBuffer.add .settle .entered
  | .learn => if c.buffer.isSome then c else c.holdBuffer.add .learn .entered

/-- A connect goes on to `_load`, a reconnect to `_reconcile_pass`. -/
def enter (id : ℕ) : Client Order Trailing :=
  match c.find id with
  | some ⟨_, _, .preparing⟩ => c.holdBuffer.advance id .entered
  | _ => c

/-- A rebuild asks for its snapshot. -/
def ask (id : ℕ) : Client Order Trailing × List (Record Order Trailing) :=
  match c.find id with
  | some ⟨_, _, .entered⟩ => (c.advance id .reading, [.asked id])
  | _ => (c, [])

/-- `_stand`. A `_load` releases the buffer at once. -/
def stand (id : ℕ) : Client Order Trailing × List (Record Order Trailing) :=
  match c.find id with
  | some ⟨_, kind, .reading⟩ =>
    let c := { c with rebuilding := false }
    match kind with
    | .start | .reconnect => (c.advance id .stood, [.stood id])
    | .connect | .settle | .learn =>
      let released := (c.drop id).releaseBuffer
      (released.1, .stood id :: released.2)
  | _ => (c, [])

/-- A pass is over: the start's waits for its mass status to be reconciled, a reconnect's has
rewritten the balance checkpoint or failed to. -/
def finish (id : ℕ) : Client Order Trailing × List (Record Order Trailing) :=
  match c.find id with
  | some ⟨_, .start, .stood⟩ => ((c.drop id).awaitReconciliation id, [])
  | some ⟨_, .reconnect, .stood⟩ => (c.drop id).releaseBuffer
  | _ => (c, [])

/-- A rebuild raises. A connect that raises detaches the client. -/
def fail (id : ℕ) : Client Order Trailing × List (Record Order Trailing) :=
  match c.find id with
  | some ⟨_, .connect, _⟩ => (c, [])
  | some _ =>
    let released := (c.drop id).releaseBuffer
    (released.1, .failed id :: released.2)
  | none => (c, [])

/-- `_on_reconciled`. -/
def onReconciled (report : ℕ) : Client Order Trailing × List (Record Order Trailing) :=
  if c.awaitedReport = some report then c.releaseBuffer else (c, [])

/-- `_reconciliation_waited`, when its timer is armed. -/
def reconciliationWaited : Client Order Trailing × List (Record Order Trailing) :=
  if c.releaseTimer then releaseBuffer { c with releaseTimer := false } else (c, [])

end Client

/-! ## Runs -/

/-- Everything that can happen. -/
inductive Action (Order Trailing : Type)
  | arrives (event : ModelEvent Order Trailing)
  | begin (kind : Kind)
  | enter (id : ℕ)
  | ask (id : ℕ)
  | stand (id : ℕ)
  | finish (id : ℕ)
  | fail (id : ℕ)
  | reconciled (report : ℕ)
  | waited
deriving DecidableEq, Repr

/-- The client as a machine. -/
def machine : Machine (Client Order Trailing) (Action Order Trailing) (Record Order Trailing) where
  step c
    | .arrives event =>
      let (c, told) := c.arrives event
      (c, .arrived event :: told)
    | .begin kind => (c.begin kind, [])
    | .enter id => (c.enter id, [])
    | .ask id => c.ask id
    | .stand id => c.stand id
    | .finish id => c.finish id
    | .fail id => c.fail id
    | .reconciled report => c.onReconciled report
    | .waited => c.reconciliationWaited

/-- The events that arrived, in order. -/
def arrivals (records : List (Record Order Trailing)) : List (ModelEvent Order Trailing) :=
  records.filterMap fun
    | .arrived event => some event
    | _ => none

/-- The events applied to the book, in order. -/
def applications (records : List (Record Order Trailing)) : List (ModelEvent Order Trailing) :=
  records.filterMap fun
    | .applied event => some event
    | _ => none

/-- Nothing is applied between a rebuild's asking for its snapshot and its model standing or its
failure. -/
def NotUnder (records : List (Record Order Trailing)) : Prop :=
  ∀ before id between event rest,
    records = before ++ .asked id :: (between ++ .applied event :: rest) →
      .stood id ∈ between ∨ .failed id ∈ between

/-- What is applied, and after it what is held, is what arrived. It is held only while a rebuild is
under way or the timer that releases it is armed. And nothing is applied under a rebuild. -/
structure Lawful (records : List (Record Order Trailing)) (c : Client Order Trailing) : Prop where
  once : applications records ++ c.buffer.getD [] = arrivals records
  held : c.buffer.isSome = true → c.rebuilds ≠ [] ∨ c.releaseTimer = true
  notUnder : NotUnder records

/-- The pass of a connect, of the start or of a reconnect begins with no rebuild under way, and a
connect's or the start's with no mass status awaited. -/
def beginsAlone (c : Client Order Trailing) : Action Order Trailing → Bool
  | .begin .connect => c.rebuilds.isEmpty && c.awaitedReport.isNone
  | .begin .start => c.rebuilds.isEmpty && c.awaitedReport.isNone
  | .begin .reconnect => c.rebuilds.isEmpty
  | _ => true

/-! ## What is told -/

variable {records more : List (Record Order Trailing)} {c : Client Order Trailing}

/-- What arrives one after the other. -/
@[simp] theorem arrivals_append :
    arrivals (records ++ more) = arrivals records ++ arrivals more := List.filterMap_append

/-- What is applied one after the other. -/
@[simp] theorem applications_append :
    applications (records ++ more) = applications records ++ applications more :=
  List.filterMap_append

/-- What is applied does not arrive again. -/
theorem arrivals_applied (events : List (ModelEvent Order Trailing)) :
    arrivals (events.map Record.applied) = [] := by
  unfold arrivals
  rw [List.filterMap_map, List.filterMap_eq_nil_iff]
  intro event _
  rfl

/-- Events that are told as applied are. -/
theorem applications_applied (events : List (ModelEvent Order Trailing)) :
    applications (events.map Record.applied) = events := by
  unfold applications
  rw [List.filterMap_map]
  exact List.filterMap_some

/-- Every asking of `id` for its snapshot is over. -/
def Settled (records : List (Record Order Trailing)) (id : ℕ) : Prop :=
  ∀ before rest, records = before ++ .asked id :: rest → .stood id ∈ rest ∨ .failed id ∈ rest

/-- A rebuild that asked for nothing more stays settled. -/
theorem Settled.append {id : ℕ} (h : Settled records id) (hmore : .asked id ∉ more) :
    Settled (records ++ more) id := by
  intro before rest hsplit
  rcases Machine.append_split hsplit with ⟨earlier, rfl, hrecords⟩ | ⟨earlier, -, rfl⟩
  · rcases h before earlier hrecords with hstood | hfailed
    · exact .inl (List.mem_append_left _ hstood)
    · exact .inr (List.mem_append_left _ hfailed)
  · exact absurd (by simp) hmore

/-- A rebuild that is over is settled. -/
theorem settled_of_over {id : ℕ} {record : Record Order Trailing}
    (hrecord : record = .stood id ∨ record = .failed id) : Settled (records ++ [record]) id := by
  intro before rest hsplit
  rcases Machine.concat_split hsplit with ⟨earlier, rfl, -⟩ | ⟨-, -, heq⟩
  · rcases hrecord with rfl | rfl
    · exact .inl (by simp)
    · exact .inr (by simp)
  · rcases hrecord with rfl | rfl <;> cases heq

/-- Where nothing is applied, nothing is applied under a rebuild. -/
theorem NotUnder.append (h : NotUnder records) (hmore : ∀ event, .applied event ∉ more) :
    NotUnder (records ++ more) := by
  intro before id between event rest hsplit
  rcases Machine.append_split hsplit with ⟨earlier, hrest, hrecords⟩ | ⟨earlier, -, hmore'⟩
  · rcases Machine.append_split hrest.symm with ⟨later, -, hearlier⟩ | ⟨later, -, happlied⟩
    · exact h before id between event later (by rw [hrecords, hearlier])
    · exact absurd (by rw [happlied]; simp) (hmore event)
  · exact absurd (by rw [hmore']; simp) (hmore event)

/-- What is applied once every asking is over is applied under no rebuild. -/
theorem NotUnder.append_of_settled (h : NotUnder records) (hsettled : ∀ id, Settled records id)
    (hmore : ∀ id, .asked id ∉ more) : NotUnder (records ++ more) := by
  intro before id between event rest hsplit
  rcases Machine.append_split hsplit with ⟨earlier, hrest, hrecords⟩ | ⟨earlier, -, hmore'⟩
  · rcases Machine.append_split hrest.symm with ⟨later, -, hearlier⟩ | ⟨later, hbetween, -⟩
    · exact h before id between event later (by rw [hrecords, hearlier])
    · rcases hsettled id before earlier hrecords with hstood | hfailed
      · exact .inl (hbetween ▸ List.mem_append_left _ hstood)
      · exact .inr (hbetween ▸ List.mem_append_left _ hfailed)
  · exact absurd (by rw [hmore']; simp) (hmore id)

/-! ## The release -/

/-- Without a buffer the held events are applied. -/
theorem applyHeld_eq (held : List (ModelEvent Order Trailing)) (hbuffer : c.buffer = none) :
    c.applyHeld held = (c, held.map .applied) := by
  induction held with
  | nil => rfl
  | cons event held ih =>
    cases event with
    | execution event =>
      simp only [Client.applyHeld, Client.applyExecutionEvent, ih, List.map_cons]
      rfl
    | trailingStop event =>
      simp only [Client.applyHeld, Client.onTrailingStop, hbuffer, ih, List.map_cons]
      rfl

/-- A release applies what is held, in order, and holds nothing any more. -/
theorem releaseBuffer_eq (c : Client Order Trailing) :
    c.releaseBuffer =
      ({ c with
          buffer := none
          modelStanding := true
          rebuilding := false
          awaitedReport := none
          releaseTimer := false }, (c.buffer.getD []).map .applied) := by
  unfold Client.releaseBuffer
  cases hbuffer : c.buffer with
  | none => rfl
  | some held =>
    dsimp only
    rw [applyHeld_eq held rfl]
    rfl

/-- An event is held behind a buffer, else applied. -/
theorem arrives_eq (c : Client Order Trailing) (event : ModelEvent Order Trailing) :
    c.arrives event =
      match c.buffer with
      | some held => ({ c with buffer := some (held ++ [event]) }, [])
      | none => (c, [.applied event]) := by
  cases event with
  | execution event => rfl
  | trailingStop event => rfl

/-! ## Held events are applied once and in order -/

/-- What every run keeps, however its rebuilds overlap. -/
structure Flow (records : List (Record Order Trailing)) (c : Client Order Trailing) : Prop where
  once : applications records ++ c.buffer.getD [] = arrivals records
  held : c.buffer.isSome = true → c.rebuilds ≠ [] ∨ c.releaseTimer = true

/-- A record that is neither an arrival nor an application. -/
def Record.Quiet : Record Order Trailing → Prop
  | .arrived _ | .applied _ => False
  | .asked _ | .stood _ | .failed _ => True

/-- Nothing arrives quietly. -/
theorem arrivals_quiet (h : ∀ r ∈ more, r.Quiet) : arrivals more = [] := by
  unfold arrivals
  rw [List.filterMap_eq_nil_iff]
  intro r hr
  have hquiet := h r hr
  cases r <;> first | rfl | exact hquiet.elim

/-- Nothing is applied quietly. -/
theorem applications_quiet (h : ∀ r ∈ more, r.Quiet) : applications more = [] := by
  unfold applications
  rw [List.filterMap_eq_nil_iff]
  intro r hr
  have hquiet := h r hr
  cases r <;> first | rfl | exact hquiet.elim

/-- A step that keeps what is held, telling nothing of events. -/
theorem Flow.keep {c' : Client Order Trailing} (h : Flow records c)
    (hbuffer : c'.buffer.getD [] = c.buffer.getD [])
    (hheld : c'.buffer.isSome = true → c'.rebuilds ≠ [] ∨ c'.releaseTimer = true)
    (hquiet : ∀ r ∈ more, r.Quiet) : Flow (records ++ more) c' where
  once := by
    rw [arrivals_append, applications_append, arrivals_quiet hquiet, applications_quiet hquiet,
      List.append_nil, List.append_nil, hbuffer]
    exact h.once
  held := hheld

/-- A release applies everything held. -/
theorem Flow.release (h : Flow records c) (c' : Client Order Trailing)
    (hbuffer : c'.buffer = c.buffer) (hquiet : ∀ r ∈ more, r.Quiet) :
    Flow (records ++ (more ++ c'.releaseBuffer.2)) c'.releaseBuffer.1 where
  once := by
    rw [releaseBuffer_eq, hbuffer, ← List.append_assoc, arrivals_append, arrivals_append,
      applications_append, applications_append, arrivals_quiet hquiet, applications_quiet hquiet,
      arrivals_applied, applications_applied]
    simpa using h.once
  held := by
    rw [releaseBuffer_eq]
    intro hsome
    cases hsome

/-- A rebuild that is found is under way. -/
theorem rebuilds_ne_nil {id : ℕ} {r : Rebuild} (h : c.find id = some r) : c.rebuilds ≠ [] :=
  List.ne_nil_of_mem (List.mem_of_find?_eq_some h)

/-- A rebuild that goes on is still under way. -/
theorem advance_ne_nil {id : ℕ} {stage : Stage} (h : c.rebuilds ≠ []) :
    (c.advance id stage).rebuilds ≠ [] := by
  unfold Client.advance
  simpa using h

/-- A rebuild begins. -/
theorem Flow.begin (h : Flow records c) (kind : Kind) : Flow (records ++ []) (c.begin kind) := by
  have hadd : ∀ (c' : Client Order Trailing) (kind : Kind) (stage : Stage),
      c'.buffer.getD [] = c.buffer.getD [] → Flow (records ++ []) (c'.add kind stage) := by
    intro c' kind stage hbuffer
    exact h.keep hbuffer (fun _ => .inl (by simp [Client.add])) (by simp)
  have hjoined : Flow (records ++ []) c := by
    rw [List.append_nil]
    exact h
  cases kind with
  | connect => exact hadd c.holdBuffer _ _ rfl
  | start => exact hadd c.holdBuffer _ _ rfl
  | reconnect => exact hadd c.stopAwaiting.holdBuffer _ _ rfl
  | settle =>
    dsimp only [Client.begin]
    split
    · exact hjoined
    · exact hadd c.holdBuffer _ _ rfl
  | learn =>
    dsimp only [Client.begin]
    split
    · exact hjoined
    · exact hadd c.holdBuffer _ _ rfl

/-- An event arrives. -/
theorem Flow.arrives (h : Flow records c) (event : ModelEvent Order Trailing) :
    Flow (records ++ (.arrived event :: (c.arrives event).2)) (c.arrives event).1 := by
  have hsplit : ∀ told : List (Record Order Trailing),
      records ++ (.arrived event :: told) = records ++ ([.arrived event] ++ told) := fun _ => rfl
  rw [hsplit, arrives_eq]
  cases hbuffer : c.buffer with
  | some held =>
    have honce := h.once
    rw [hbuffer] at honce
    refine ⟨?_, fun _ => h.held (by rw [hbuffer]; rfl)⟩
    rw [List.append_nil, arrivals_append, applications_append, ← honce]
    simp [arrivals, applications]
  | none =>
    have honce := h.once
    rw [hbuffer] at honce
    refine ⟨?_, fun hsome => by rw [hbuffer] at hsome; cases hsome⟩
    rw [arrivals_append, applications_append, ← honce, hbuffer]
    simp [arrivals, applications]

/-- A rebuild's book stands. -/
theorem Flow.stand (h : Flow records c) (id : ℕ) :
    Flow (records ++ (c.stand id).2) (c.stand id).1 := by
  have hquiet : ∀ r ∈ ([.stood id] : List (Record Order Trailing)), r.Quiet := by
    simp [Record.Quiet]
  unfold Client.stand
  split
  · rename_i kind hfind
    have hne := rebuilds_ne_nil hfind
    cases kind with
    | start => exact h.keep rfl (fun _ => .inl (advance_ne_nil hne)) hquiet
    | reconnect => exact h.keep rfl (fun _ => .inl (advance_ne_nil hne)) hquiet
    | connect => exact h.release (Client.drop { c with rebuilding := false } id) rfl hquiet
    | settle => exact h.release (Client.drop { c with rebuilding := false } id) rfl hquiet
    | learn => exact h.release (Client.drop { c with rebuilding := false } id) rfl hquiet
  · exact h.keep rfl h.held (by simp)

/-- A rebuild ends, and what it held is let go with the last. -/
theorem Flow.finish (h : Flow records c) (id : ℕ) :
    Flow (records ++ (c.finish id).2) (c.finish id).1 := by
  have hnone : ∀ r ∈ ([] : List (Record Order Trailing)), r.Quiet := by simp
  unfold Client.finish
  split
  · exact h.keep rfl (fun _ => .inr rfl) hnone
  · exact h.release (c.drop id) rfl hnone
  · exact h.keep rfl h.held hnone

/-- A rebuild fails. -/
theorem Flow.fail (h : Flow records c) (id : ℕ) :
    Flow (records ++ (c.fail id).2) (c.fail id).1 := by
  have hquiet : ∀ r ∈ ([.failed id] : List (Record Order Trailing)), r.Quiet := by
    simp [Record.Quiet]
  unfold Client.fail
  split
  · exact h.keep rfl h.held (by simp)
  · exact h.release (c.drop id) rfl hquiet
  · exact h.keep rfl h.held (by simp)

/-- Every step keeps the flow. -/
theorem Flow.step (h : Flow records c) (action : Action Order Trailing) :
    Flow (records ++ (machine.step c action).2) (machine.step c action).1 := by
  have hnothing : Flow (records ++ []) c := by
    rw [List.append_nil]
    exact h
  have hnone : ∀ r ∈ ([] : List (Record Order Trailing)), r.Quiet := by simp
  cases action with
  | arrives event => exact h.arrives event
  | begin kind => exact h.begin kind
  | enter id =>
    show Flow (records ++ []) (c.enter id)
    unfold Client.enter
    split
    · rename_i hfind
      exact h.keep rfl (fun _ => .inl (advance_ne_nil (rebuilds_ne_nil hfind))) (by simp)
    · exact hnothing
  | ask id =>
    show Flow (records ++ (c.ask id).2) (c.ask id).1
    unfold Client.ask
    split
    · rename_i hfind
      exact h.keep rfl (fun _ => .inl (advance_ne_nil (rebuilds_ne_nil hfind)))
        (by simp [Record.Quiet])
    · exact hnothing
  | stand id => exact h.stand id
  | finish id => exact h.finish id
  | fail id => exact h.fail id
  | reconciled report =>
    show Flow (records ++ (c.onReconciled report).2) (c.onReconciled report).1
    unfold Client.onReconciled
    split
    · exact h.release c rfl hnone
    · exact hnothing
  | waited =>
    show Flow (records ++ c.reconciliationWaited.2) c.reconciliationWaited.1
    unfold Client.reconciliationWaited
    split
    · exact h.release { c with releaseTimer := false } rfl hnone
    · exact hnothing

/-! ## Nothing is applied under a rebuild that began alone -/

/-- What a run keeps in which the passes begin alone. -/
structure Guarded (records : List (Record Order Trailing)) (c : Client Order Trailing) : Prop where
  notUnder : NotUnder records
  settled : ∀ id, Settled records id ∨ ∃ r ∈ c.rebuilds, r.id = id ∧ r.stage = .reading
  alone : c.rebuilds.length ≤ 1
  holding : c.rebuilds ≠ [] → c.buffer.isSome = true ∧ c.awaitedReport = none ∧
    c.releaseTimer = false
  awaiting : c.awaitedReport.isSome = true → c.buffer.isSome = true
  timer : c.releaseTimer = true → c.awaitedReport.isSome = true

/-- Where no rebuild reads, every asking is over. -/
theorem Guarded.all_settled (h : Guarded records c)
    (hnone : ∀ r ∈ c.rebuilds, r.stage ≠ .reading) (id : ℕ) : Settled records id := by
  rcases h.settled id with hsettled | ⟨r, hr, -, hreading⟩
  · exact hsettled
  · exact absurd hreading (hnone r hr)

/-- The one rebuild under way is found by its id. -/
theorem rebuilds_eq_of_find {id : ℕ} {r : Rebuild} (halone : c.rebuilds.length ≤ 1)
    (hfind : c.find id = some r) : c.rebuilds = [r] ∧ r.id = id := by
  have hmem := List.mem_of_find?_eq_some hfind
  have hid : r.id = id := by simpa using List.find?_some hfind
  cases hrebuilds : c.rebuilds with
  | nil =>
    rw [hrebuilds] at hmem
    cases hmem
  | cons first rest =>
    rw [hrebuilds, List.length_cons] at halone
    have hrest : rest = [] := List.length_eq_zero_iff.mp (by omega)
    rw [hrebuilds, hrest, List.mem_singleton] at hmem
    exact ⟨by rw [hrest, hmem], hid⟩

/-- The only rebuild ends. -/
theorem drop_rebuilds {id : ℕ} {r : Rebuild} (halone : c.rebuilds.length ≤ 1)
    (hfind : c.find id = some r) : (c.drop id).rebuilds = [] := by
  obtain ⟨hrebuilds, hid⟩ := rebuilds_eq_of_find halone hfind
  unfold Client.drop
  rw [hrebuilds]
  simp [hid]

/-- A record other than an asking or an application leaves the law. -/
theorem Guarded.tell (h : Guarded records c) {record : Record Order Trailing}
    (hasked : ∀ id, record ≠ .asked id) (happlied : ∀ event, record ≠ .applied event) :
    Guarded (records ++ [record]) c where
  notUnder := h.notUnder.append fun event hmem => happlied event (List.mem_singleton.mp hmem).symm
  settled := by
    intro id
    rcases h.settled id with hsettled | hreading
    · exact .inl (hsettled.append fun hmem => hasked id (List.mem_singleton.mp hmem).symm)
    · exact .inr hreading
  alone := h.alone
  holding := h.holding
  awaiting := h.awaiting
  timer := h.timer

/-- Once every asking is over, held events may be applied. -/
theorem Guarded.release (hunder : NotUnder records)
    (hsettled : ∀ id, Settled records id) (hnone : c.rebuilds = []) :
    Guarded (records ++ c.releaseBuffer.2) c.releaseBuffer.1 := by
  rw [releaseBuffer_eq]
  have hasked : ∀ id, Record.asked id ∉ (c.buffer.getD []).map Record.applied := by
    intro id hmem
    obtain ⟨event, -, heq⟩ := List.mem_map.mp hmem
    cases heq
  exact
    { notUnder := hunder.append_of_settled hsettled hasked
      settled := fun id => .inl ((hsettled id).append (hasked id))
      alone := by
        show c.rebuilds.length ≤ 1
        rw [hnone]
        exact Nat.zero_le 1
      holding := fun hne => absurd hnone hne
      awaiting := fun hsome => by cases hsome
      timer := fun htimer => by cases htimer }

/-- An event arrives. -/
theorem Guarded.arrives (h : Guarded records c) (event : ModelEvent Order Trailing) :
    Guarded (records ++ (.arrived event :: (c.arrives event).2)) (c.arrives event).1 := by
  have htold : Guarded (records ++ [.arrived event]) c :=
    h.tell (fun id heq => by cases heq) (fun event heq => by cases heq)
  have hsplit : ∀ told : List (Record Order Trailing),
      records ++ (.arrived event :: told) = records ++ [.arrived event] ++ told := by
    intro told
    rw [List.append_assoc]
    rfl
  rw [hsplit, arrives_eq]
  cases hbuffer : c.buffer with
  | some held =>
    rw [List.append_nil]
    exact
      { htold with
        holding := fun hne => ⟨rfl, (htold.holding hne).2⟩
        awaiting := fun _ => rfl }
  | none =>
    have hnone : c.rebuilds = [] := by
      by_contra hne
      have hheld := (h.holding hne).1
      rw [hbuffer] at hheld
      cases hheld
    have hsettled := htold.all_settled fun r hr => by
      rw [hnone] at hr
      cases hr
    have hasked : ∀ id, Record.asked id ∉
        ([.applied event] : List (Record Order Trailing)) := by
      intro id hmem
      cases List.mem_singleton.mp hmem
    exact
      { htold with
        notUnder := htold.notUnder.append_of_settled hsettled hasked
        settled := fun id => .inl ((hsettled id).append (hasked id)) }

/-- A rebuild that begins where none is under way and no mass status is awaited. -/
theorem Guarded.add (h : Guarded records c) (hnone : c.rebuilds = [])
    (c' : Client Order Trailing) (hrebuilds : c'.rebuilds = []) (hbuffer : c'.buffer.isSome = true)
    (hawaited : c'.awaitedReport = none) (htimer : c'.releaseTimer = false) (kind : Kind)
    (stage : Stage) : Guarded records (c'.add kind stage) where
  notUnder := h.notUnder
  settled := fun id => .inl (h.all_settled (fun r hr => by rw [hnone] at hr; cases hr) id)
  alone := by
    show (c'.rebuilds ++ [_]).length ≤ 1
    rw [hrebuilds]
    exact Nat.le_refl 1
  holding := fun _ => ⟨hbuffer, hawaited, htimer⟩
  awaiting := fun _ => hbuffer
  timer := fun htimer' => by
    have : c'.releaseTimer = true := htimer'
    rw [htimer] at this
    cases this

/-- The release timer is armed only while a report is awaited. -/
theorem Guarded.timer_of_awaited (h : Guarded records c) (hawaited : c.awaitedReport = none) :
    c.releaseTimer = false := by
  by_contra htimer
  have hsome := h.timer (by simpa using htimer)
  rw [hawaited] at hsome
  cases hsome

/-- A pass begins alone. -/
theorem Guarded.begin (h : Guarded records c) {kind : Kind}
    (halone : beginsAlone c (.begin kind) = true) : Guarded records (c.begin kind) := by
  have hfree : c.buffer.isSome = false → c.rebuilds = [] ∧ c.awaitedReport = none := by
    intro hbuffer
    refine ⟨?_, ?_⟩
    · by_contra hne
      have hheld := (h.holding hne).1
      rw [hbuffer] at hheld
      cases hheld
    · by_contra hawaited
      have hheld := h.awaiting (Option.isSome_iff_ne_none.mpr hawaited)
      rw [hbuffer] at hheld
      cases hheld
  have hhold : c.rebuilds = [] → c.awaitedReport = none → ∀ kind stage,
      Guarded records (c.holdBuffer.add kind stage) := by
    intro hnone hawaited kind stage
    exact h.add hnone c.holdBuffer hnone rfl hawaited (h.timer_of_awaited hawaited) kind stage
  cases kind with
  | connect =>
    simp only [beginsAlone, Bool.and_eq_true, List.isEmpty_iff, Option.isNone_iff_eq_none] at halone
    exact hhold halone.1 halone.2 _ _
  | start =>
    simp only [beginsAlone, Bool.and_eq_true, List.isEmpty_iff, Option.isNone_iff_eq_none] at halone
    exact hhold halone.1 halone.2 _ _
  | reconnect =>
    simp only [beginsAlone, List.isEmpty_iff] at halone
    exact h.add halone c.stopAwaiting.holdBuffer halone rfl rfl rfl _ _
  | settle =>
    dsimp only [Client.begin]
    split
    · exact h
    · rename_i hbuffer
      obtain ⟨hnone, hawaited⟩ := hfree (by simpa using hbuffer)
      exact hhold hnone hawaited _ _
  | learn =>
    dsimp only [Client.begin]
    split
    · exact h
    · rename_i hbuffer
      obtain ⟨hnone, hawaited⟩ := hfree (by simpa using hbuffer)
      exact hhold hnone hawaited _ _

/-- The one rebuild under way goes on to another stage, with the buffer held. -/
theorem Guarded.advance (h : Guarded records c) {id : ℕ} {r : Rebuild} (hfind : c.find id = some r)
    {stage : Stage} (c' : Client Order Trailing) (hrebuilds : c'.rebuilds = c.rebuilds)
    (hbuffer : c'.buffer.isSome = true) (hawaited : c'.awaitedReport = c.awaitedReport)
    (htimer : c'.releaseTimer = c.releaseTimer)
    (hunder : NotUnder (records ++ more))
    (hsettled : ∀ j, Settled (records ++ more) j ∨ (j = id ∧ stage = .reading)) :
    Guarded (records ++ more) (c'.advance id stage) := by
  obtain ⟨hone, hid⟩ := rebuilds_eq_of_find h.alone hfind
  obtain ⟨-, hnothing, htimerOff⟩ := h.holding (rebuilds_ne_nil hfind)
  have hadvanced : (c'.advance id stage).rebuilds = [{ r with stage := stage }] := by
    show c'.rebuilds.map _ = _
    rw [hrebuilds, hone, List.map_singleton, if_pos hid]
  have htimer' : (c'.advance id stage).releaseTimer = false := htimer.trans htimerOff
  refine
    { notUnder := hunder
      settled := ?_
      alone := ?_
      holding := fun _ => ⟨hbuffer, hawaited.trans hnothing, htimer'⟩
      awaiting := fun _ => hbuffer
      timer := ?_ }
  · intro j
    rcases hsettled j with hsettled | ⟨hj, hreading⟩
    · exact .inl hsettled
    · refine .inr ⟨{ r with stage := stage }, ?_, hid.trans hj.symm, hreading⟩
      rw [hadvanced]
      exact List.mem_singleton_self _
  · rw [hadvanced]
    exact Nat.le_refl 1
  · intro htrue
    rw [htimer'] at htrue
    cases htrue

/-- Where the one rebuild under way is not reading, every asking is over. -/
theorem Guarded.settled_of_find (h : Guarded records c) {id : ℕ} {r : Rebuild}
    (hfind : c.find id = some r) (hstage : r.stage ≠ .reading) (j : ℕ) : Settled records j := by
  obtain ⟨hone, -⟩ := rebuilds_eq_of_find h.alone hfind
  refine h.all_settled (fun found hfound => ?_) j
  rw [hone, List.mem_singleton] at hfound
  rwa [hfound]

/-- Where the one rebuild under way stands or fails, every asking is over. -/
theorem Guarded.settled_over (h : Guarded records c) {id : ℕ} {r : Rebuild}
    (hfind : c.find id = some r) {record : Record Order Trailing}
    (hrecord : record = .stood id ∨ record = .failed id) (j : ℕ) :
    Settled (records ++ [record]) j := by
  obtain ⟨hone, hid⟩ := rebuilds_eq_of_find h.alone hfind
  by_cases hj : j = id
  · rw [hj]
    exact settled_of_over hrecord
  · rcases h.settled j with hsettled | ⟨found, hfound, hfoundId, -⟩
    · refine hsettled.append fun hmem => ?_
      rcases hrecord with rfl | rfl <;> cases List.mem_singleton.mp hmem
    · rw [hone, List.mem_singleton] at hfound
      rw [hfound, hid] at hfoundId
      exact absurd hfoundId.symm hj

/-- A rebuild that stands or fails and releases the buffer. -/
theorem Guarded.over (h : Guarded records c) {id : ℕ} {r : Rebuild} (hfind : c.find id = some r)
    {record : Record Order Trailing} (hrecord : record = .stood id ∨ record = .failed id)
    (c' : Client Order Trailing) (hnone : c'.rebuilds = []) :
    Guarded (records ++ (record :: c'.releaseBuffer.2)) c'.releaseBuffer.1 := by
  have htold : Guarded (records ++ [record]) c := by
    refine h.tell (fun j heq => ?_) (fun event heq => ?_)
    · rcases hrecord with rfl | rfl <;> cases heq
    · rcases hrecord with rfl | rfl <;> cases heq
  have hreleased := Guarded.release htold.notUnder (h.settled_over hfind hrecord) hnone
  rwa [List.append_assoc] at hreleased

/-- A rebuild takes its turn. -/
theorem Guarded.enter (h : Guarded records c) (id : ℕ) : Guarded (records ++ []) (c.enter id) := by
  unfold Client.enter
  split
  · rename_i hfind
    refine h.advance hfind c.holdBuffer rfl rfl rfl rfl ?_ ?_
    · rw [List.append_nil]
      exact h.notUnder
    · intro j
      rw [List.append_nil]
      exact .inl (h.settled_of_find hfind (by simp) j)
  · rwa [List.append_nil]

/-- A rebuild asks the venue. -/
theorem Guarded.ask (h : Guarded records c) (id : ℕ) :
    Guarded (records ++ (c.ask id).2) (c.ask id).1 := by
  unfold Client.ask
  split
  · rename_i hfind
    have hheld := (h.holding (rebuilds_ne_nil hfind)).1
    have hsettled := h.settled_of_find hfind (by simp)
    -- The asking is over for every other rebuild, and this one now reads.
    refine h.advance hfind c rfl hheld rfl rfl ?_ ?_
    · refine h.notUnder.append fun event hmem => ?_
      cases List.mem_singleton.mp hmem
    · intro j
      by_cases hj : j = id
      · exact .inr ⟨hj, rfl⟩
      · refine .inl ((hsettled j).append fun hmem => ?_)
        have heq := List.mem_singleton.mp hmem
        injection heq with heq
        exact hj heq
  · rwa [List.append_nil]

/-- A rebuild's book stands. -/
theorem Guarded.stand (h : Guarded records c) (id : ℕ) :
    Guarded (records ++ (c.stand id).2) (c.stand id).1 := by
  unfold Client.stand
  split
  · rename_i kind hfind
    have hheld := (h.holding (rebuilds_ne_nil hfind)).1
    have hstanding : ∀ c' : Client Order Trailing, c' = { c with rebuilding := false } →
        Guarded (records ++ [.stood id]) (c'.advance id .stood) := by
      rintro c' rfl
      refine h.advance hfind _ rfl hheld rfl rfl ?_ ?_
      · exact (h.tell (fun j heq => by cases heq) (fun event heq => by cases heq)).notUnder
      · exact fun j => .inl (h.settled_over hfind (.inl rfl) j)
    have hloaded := h.over hfind (.inl rfl) (Client.drop { c with rebuilding := false } id)
      (drop_rebuilds h.alone hfind)
    cases kind with
    | start => exact hstanding _ rfl
    | reconnect => exact hstanding _ rfl
    | connect => exact hloaded
    | settle => exact hloaded
    | learn => exact hloaded
  · rwa [List.append_nil]

/-- A rebuild ends. -/
theorem Guarded.finish (h : Guarded records c) (id : ℕ) :
    Guarded (records ++ (c.finish id).2) (c.finish id).1 := by
  unfold Client.finish
  split
  · rename_i hfind
    have hheld := (h.holding (rebuilds_ne_nil hfind)).1
    have hdropped : ((c.drop id).awaitReconciliation id).rebuilds = [] :=
      drop_rebuilds h.alone hfind
    rw [List.append_nil]
    exact
      { notUnder := h.notUnder
        settled := fun j => .inl (h.settled_of_find hfind (by simp) j)
        alone := by
          rw [hdropped]
          exact Nat.zero_le 1
        holding := fun hne => absurd hdropped hne
        awaiting := fun _ => hheld
        timer := fun _ => rfl }
  · rename_i hfind
    exact Guarded.release h.notUnder (h.settled_of_find hfind (by simp))
      (drop_rebuilds h.alone hfind)
  · rwa [List.append_nil]

/-- A rebuild fails. -/
theorem Guarded.fail (h : Guarded records c) (id : ℕ) :
    Guarded (records ++ (c.fail id).2) (c.fail id).1 := by
  unfold Client.fail
  split
  · rwa [List.append_nil]
  · rename_i hfind
    exact h.over hfind (.inr rfl) (c.drop id) (drop_rebuilds h.alone hfind)
  · rwa [List.append_nil]

/-- While a mass status is awaited no rebuild is under way. -/
theorem Guarded.none_of_awaited (h : Guarded records c) (hawaited : c.awaitedReport.isSome = true) :
    c.rebuilds = [] := by
  by_contra hne
  rw [(h.holding hne).2.1] at hawaited
  cases hawaited

/-- Every step keeps the guard, where passes begin alone. -/
theorem Guarded.step (h : Guarded records c) {action : Action Order Trailing}
    (halone : beginsAlone c action = true) :
    Guarded (records ++ (machine.step c action).2) (machine.step c action).1 := by
  have hreleased : c.awaitedReport.isSome = true → ∀ c' : Client Order Trailing,
      c'.rebuilds = c.rebuilds → Guarded (records ++ c'.releaseBuffer.2) c'.releaseBuffer.1 := by
    intro hawaited c' hrebuilds
    have hnone := h.none_of_awaited hawaited
    refine Guarded.release h.notUnder (fun id => ?_) (hrebuilds.trans hnone)
    exact h.all_settled (fun r hr => by rw [hnone] at hr; cases hr) id
  cases action with
  | arrives event => exact h.arrives event
  | begin kind =>
    show Guarded (records ++ []) (c.begin kind)
    rw [List.append_nil]
    exact h.begin halone
  | enter id => exact h.enter id
  | ask id => exact h.ask id
  | stand id => exact h.stand id
  | finish id => exact h.finish id
  | fail id => exact h.fail id
  | reconciled report =>
    show Guarded (records ++ (c.onReconciled report).2) (c.onReconciled report).1
    unfold Client.onReconciled
    split
    · rename_i hreport
      exact hreleased (by rw [hreport]; rfl) c rfl
    · rwa [List.append_nil]
  | waited =>
    show Guarded (records ++ c.reconciliationWaited.2) c.reconciliationWaited.1
    unfold Client.reconciliationWaited
    split
    · rename_i htimer
      exact hreleased (h.timer htimer) { c with releaseTimer := false } rfl
    · rwa [List.append_nil]

/-! ## The law -/

/-- Where the passes of a connect, of the start and of a reconnect begin alone, what arrives is
applied once, in order, and never under a rebuild. -/
theorem held_lawful (actions : List (Action Order Trailing))
    (h : machine.Always (fun c action => beginsAlone c action = true) {} actions) :
    Lawful (machine.told {} actions) (machine.after {} actions) := by
  have hstart : Flow ([] : List (Record Order Trailing)) {} ∧
      Guarded ([] : List (Record Order Trailing)) {} := by
    refine ⟨⟨rfl, fun hsome => by cases hsome⟩, ?_⟩
    exact
      { notUnder := fun before id between event rest hsplit => by simp at hsplit
        settled := fun id => .inl fun before rest hsplit => by simp at hsplit
        alone := Nat.zero_le 1
        holding := fun hne => absurd rfl hne
        awaiting := fun hsome => by cases hsome
        timer := fun htimer => by cases htimer }
  obtain ⟨hflow, hguarded⟩ := Machine.told_invariant_of_always
    (I := fun records c => Flow records c ∧ Guarded records c)
    (fun records c action hI halone => ⟨hI.1.step action, hI.2.step halone⟩) hstart h
  exact ⟨hflow.once, hflow.held, hguarded.notUnder⟩

/-- The client connects, its start is reconciled, and later it reconnects; an event arrives while
each model is read. -/
def startThenReconnect : List (Action ℕ ℕ) :=
  [.begin .connect, .enter 0, .ask 0, .arrives (.execution 1), .stand 0,
    .begin .start, .ask 1, .arrives (.execution 2), .stand 1, .finish 1, .reconciled 1,
    .begin .reconnect, .enter 2, .ask 2, .arrives (.trailingStop 3), .stand 2, .finish 2]

/-- A start and a reconnect, with an event held in each. -/
theorem held_lawful_startThenReconnect :
    Lawful (machine.told {} startThenReconnect) (machine.after {} startThenReconnect) :=
  held_lawful startThenReconnect (by decide)

/-- The start's pass joins a reconnect's, which ends first. -/
def startUnderReconnect : List (Action ℕ ℕ) :=
  [.begin .reconnect, .enter 0, .ask 0, .begin .start, .ask 1, .stand 0, .finish 0,
    .arrives (.execution 1), .stand 1, .finish 1, .reconciled 1]

/-- The reconnect's pass releases the buffer that the start's joined, so an event is applied between
the start's snapshot and its model. -/
theorem applied_under_rebuild :
    ¬ Lawful (machine.told {} startUnderReconnect) (machine.after {} startUnderReconnect) := by
  intro h
  have hover := h.notUnder [.asked 0] 1 [.stood 0, .arrived (.execution 1)] (.execution 1)
    [.stood 1] (by decide)
  simp at hover

end Execution

end NautilusCtrader
