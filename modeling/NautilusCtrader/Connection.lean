import NautilusCtrader.RateLimit

/-!
# Requests on the connection

`CTraderConnection.request` waits for its turn, writes a frame on the connection it was asked on and
waits for the reply; a historical request the venue refused for its rate limit is written again.
`machine` is the connection with its scheduler, over everything that can happen to its requests, in
any order.
-/

namespace NautilusCtrader

open Common RateLimit

namespace Transport

/-- What the venue answers a frame: a response, or an error with the time to wait if it refuses the
frame for its rate limit. -/
inductive Reply
  | response
  | error (retryAfterSecs : Option ℚ)
deriving DecidableEq, Repr

/-- The error the futures of a lost connection get. -/
inductive Loss
  | connectionError | protocolError
deriving DecidableEq, Repr

/-- What a call of `request` can raise. -/
inductive Error
  | notConnected
  | queueTimeout
  | connectionLost (message : String)
  | notEncoded
  | timeout
  | lost (loss : Loss)
  | request (retryAfterSecs : Option ℚ)
deriving DecidableEq, Repr

/-- Whether the error is a `CTraderNotSentError`. -/
def Error.isNotSent : Error → Bool
  | .notConnected | .queueTimeout | .connectionLost _ | .notEncoded => true
  | .timeout | .lost _ | .request _ => false

/-- How a call of `request` ends. -/
inductive Outcome
  | returned
  | raised (error : Error)
  | cancelled
deriving DecidableEq, Repr

/-- What the future of a frame holds. -/
inductive Answer
  | reply (reply : Reply)
  | lost (loss : Loss)
deriving DecidableEq, Repr

/-- Where a call is suspended: in the queue, or in `_exchange`, waiting for its frame to drain and
for what its future will hold. -/
inductive Stage
  | queued
  | exchanging (clientMsgId : ℕ) (drained : Bool) (future : Option Answer)
deriving DecidableEq, Repr

/-- A call of `request` under way. -/
structure Request where
  group : GroupName
  generation : ℕ
  stage : Stage
deriving DecidableEq, Repr

/-- What a run leaves to see. A call that finds no connection is rejected before it has a number. -/
inductive Record
  | rejected (error : Error)
  | asked (request : ℕ) (group : GroupName) (generation : ℕ)
  | wrote (request : ℕ) (clientMsgId : ℕ) (generation : ℕ)
  | answered (clientMsgId : ℕ) (reply : Reply)
  | ended (request : ℕ) (outcome : Outcome)
deriving DecidableEq, Repr

/-- `CTraderConnection`. A request carries the sequence number of its call of `submit`, or, on a
connection without a scheduler, its place among the requests of that connection. -/
structure Connection where
  scheduler : Option Scheduler
  unpaced : ℕ := 0
  generation : ℕ := 0
  connected : Bool := false
  /-- `_writer` is set. -/
  writer : Bool := false
  nextMsgId : ℕ := 0
  pending : Dict ℕ ℕ := Dict.empty
  requests : Dict ℕ Request := Dict.empty

namespace Connection

variable (c : Connection)

/-- The call is over; its future is pending no more. -/
def finish (request : ℕ) (outcome : Outcome) : Connection × List Record :=
  let pending :=
    match c.requests.get? request with
    | some ⟨_, _, .exchanging clientMsgId _ _⟩ => c.pending.erase clientMsgId
    | _ => c.pending
  ({ c with
      scheduler := c.scheduler.map fun s => s.drop request
      pending := pending
      requests := c.requests.erase request },
    [.ended request outcome])

/-- `_exchange` as far as its wait: `_encode`, then `_write`. -/
def exchange (request : ℕ) (group : GroupName) (generation : ℕ) (encodes : Bool) :
    Connection × List Record :=
  if !encodes then c.finish request (.raised .notEncoded)
  else if !c.connected || !c.writer || c.generation ≠ generation then
    c.finish request (.raised (.connectionLost "connection lost while waiting to send"))
  else
    ({ c with
        nextMsgId := c.nextMsgId + 1
        pending := c.pending.set c.nextMsgId request
        requests := c.requests.set request ⟨group, generation, .exchanging c.nextMsgId false none⟩ },
      [.wrote request c.nextMsgId c.generation])

/-- What the caller gets when its call of `submit` raises. -/
def errorOf (retryAfterSecs : Option ℚ) : Raised → Error
  | .queueTimeout => .queueTimeout
  | .connectionLost message => .connectionLost message
  | .refused => .request retryAfterSecs

/-- `request` as far as its first wait. -/
def ask (group : GroupName) (priority : RequestPriority) (elapsed : ℚ≥0) (encodes : Bool) :
    Connection × List Record :=
  if !c.connected then (c, [.rejected .notConnected])
  else
    match c.scheduler with
    | none =>
      let (done, records) :=
        ({ c with unpaced := c.unpaced + 1 } : Connection).exchange c.unpaced group c.generation
          encodes
      (done, .asked c.unpaced group c.generation :: records)
    | some s =>
      let asked := .asked s.sequence group c.generation
      match s.submit group priority elapsed with
      | (submitted, none) =>
        ({ c with
            scheduler := some submitted
            requests := c.requests.set s.sequence ⟨group, c.generation, .queued⟩ }, [asked])
      | (submitted, some raised) =>
        ({ c with scheduler := some submitted },
          [asked, .ended s.sequence (.raised (errorOf none raised))])

/-- A queued call goes on with its exchange, or it raises. -/
def wake (request : ℕ) (elapsed : ℚ≥0) (encodes : Bool) : Connection × List Record :=
  match c.scheduler, c.requests.get? request with
  | some s, some ⟨group, generation, .queued⟩ =>
    match s.wake request elapsed with
    | (woken, none) =>
      ({ c with scheduler := some woken } : Connection).exchange request group generation encodes
    | (woken, some raised) =>
      ({ c with scheduler := some woken, requests := c.requests.erase request },
        [.ended request (.raised (errorOf none raised))])
  | _, _ => (c, [])

/-- The wait for the drain of a frame ends. -/
def drain (request : ℕ) (succeeds : Bool) : Connection × List Record :=
  match c.requests.get? request with
  | some ⟨group, generation, .exchanging clientMsgId false future⟩ =>
    if succeeds then
      ({ c with
          requests := c.requests.set request ⟨group, generation, .exchanging clientMsgId true future⟩ },
        [])
    else c.finish request (.raised (.lost .connectionError))
  | _ => (c, [])

/-- `_dispatch`: a message with a `clientMsgId` goes to the future that is pending under it. -/
def receive (clientMsgId : ℕ) (reply : Reply) : Connection × List Record :=
  if !c.connected then (c, [])
  else
    match c.pending.get? clientMsgId with
    | none => (c, [.answered clientMsgId reply])
    | some request =>
      let c := { c with pending := c.pending.erase clientMsgId }
      match c.requests.get? request with
      | some ⟨group, generation, .exchanging own drained none⟩ =>
        if own = clientMsgId then
          ({ c with
              requests := c.requests.set request
                ⟨group, generation, .exchanging own drained (some (.reply reply))⟩ },
            [.answered clientMsgId reply])
        else (c, [.answered clientMsgId reply])
      | _ => (c, [.answered clientMsgId reply])

/-- The call resumes with what its future holds. -/
def resume (request : ℕ) (elapsed requeued : ℚ≥0) : Connection × List Record :=
  match c.requests.get? request with
  | some ⟨group, generation, .exchanging clientMsgId true (some answer)⟩ =>
    match answer with
    | .lost loss => c.finish request (.raised (.lost loss))
    | .reply .response => c.finish request .returned
    | .reply (.error none) => c.finish request (.raised (.request none))
    | .reply (.error (some retryAfterSecs)) =>
      match c.scheduler with
      | none => c.finish request (.raised (.request (some retryAfterSecs)))
      | some s =>
        let c := { c with pending := c.pending.erase clientMsgId }
        match s.refused request retryAfterSecs elapsed requeued with
        | (requeued, none) =>
          ({ c with
              scheduler := some requeued
              requests := c.requests.set request ⟨group, generation, .queued⟩ }, [])
        | (dropped, some raised) =>
          ({ c with scheduler := some dropped, requests := c.requests.erase request },
            [.ended request (.raised (errorOf (some retryAfterSecs) raised))])
  | _ => (c, [])

/-- The wait for the reply times out, whatever its future holds by then. -/
def timeOut (request : ℕ) : Connection × List Record :=
  match c.requests.get? request with
  | some ⟨_, _, .exchanging _ true _⟩ => c.finish request (.raised .timeout)
  | _ => (c, [])

/-- The call is cancelled. -/
def cancel (request : ℕ) : Connection × List Record :=
  match c.requests.get? request with
  | some _ => c.finish request .cancelled
  | none => (c, [])

/-- `_reject_pending`. -/
def rejectPending (loss : Loss) : Connection :=
  { c with
    pending := Dict.empty
    requests := (c.requests.mapAccum fun request call =>
      match call.stage with
      | .exchanging clientMsgId drained none =>
        if c.pending.get? clientMsgId = some request then
          (⟨call.group, call.generation, .exchanging clientMsgId drained (some (.lost loss))⟩,
            ([] : List Unit))
        else (call, [])
      | _ => (call, [])).1 }

/-- `_fail`. -/
def fail (loss : Loss) (message : String) : Connection :=
  { ({ c with connected := false } : Connection).rejectPending loss with
    scheduler := c.scheduler.map fun s => s.failAll message }

/-- `_begin_close`. -/
def beginClose : Connection :=
  { ({ c with connected := false, writer := false } : Connection).rejectPending .connectionError with
    scheduler := c.scheduler.map fun s => s.failAll "connection closed while waiting to send" }

/-- `connect`, once the socket is open; it raises while one still is. -/
def connect : Connection :=
  if c.connected || c.writer then c
  else
    { c with
      generation := c.generation + 1
      connected := true
      writer := true
      scheduler := c.scheduler.map Scheduler.reset }

/-- A turn of a dispatcher of the scheduler. -/
def dispatch (group : GroupName) (elapsed : ℚ≥0) : Connection :=
  { c with scheduler := c.scheduler.map fun s => (s.dispatch group elapsed).1 }

end Connection

/-! ## Runs -/

/-- Everything that can happen to the requests of a connection. -/
inductive Action
  | ask (group : GroupName) (priority : RequestPriority) (elapsed : ℚ≥0) (encodes : Bool)
  | wake (request : ℕ) (elapsed : ℚ≥0) (encodes : Bool)
  | drain (request : ℕ) (succeeds : Bool)
  | receive (clientMsgId : ℕ) (reply : Reply)
  | resume (request : ℕ) (elapsed requeued : ℚ≥0)
  | timeOut (request : ℕ)
  | cancel (request : ℕ)
  | fail (loss : Loss) (message : String)
  | close
  | connect
  | dispatch (group : GroupName) (elapsed : ℚ≥0)

/-- The connection as a machine. -/
def machine : Machine Connection Action Record where
  step c
    | .ask group priority elapsed encodes => c.ask group priority elapsed encodes
    | .wake request elapsed encodes => c.wake request elapsed encodes
    | .drain request succeeds => c.drain request succeeds
    | .receive clientMsgId reply => c.receive clientMsgId reply
    | .resume request elapsed requeued => c.resume request elapsed requeued
    | .timeOut request => c.timeOut request
    | .cancel request => c.cancel request
    | .fail loss message => (c.fail loss message, [])
    | .close => (c.beginClose, [])
    | .connect => (c.connect, [])
    | .dispatch group elapsed => (c.dispatch group elapsed, [])

/-- A connection before it opens, paced or not. -/
def new (pacing : Option Pacing) (clock : ℚ) : Connection where
  scheduler := pacing.map fun pacing => RateLimit.new pacing clock

/-! ## What is written and refused -/

/-- The venue refused the frame for its rate limit. -/
def Refused (clientMsgId : ℕ) (records : List Record) : Prop :=
  ∃ retryAfterSecs, .answered clientMsgId (.error (some retryAfterSecs)) ∈ records

/-- Every frame of the call but `except` is refused after it is written. -/
def RefusedBut (except : Option ℕ) (request : ℕ) (records : List Record) : Prop :=
  ∀ before clientMsgId generation after,
    records = before ++ .wrote request clientMsgId generation :: after →
      some clientMsgId = except ∨ Refused clientMsgId after

/-- Every frame of the call is refused after it is written. -/
def AllRefused (request : ℕ) (records : List Record) : Prop :=
  ∀ before clientMsgId generation after,
    records = before ++ .wrote request clientMsgId generation :: after → Refused clientMsgId after

/-- How often the call wrote its frame. -/
def writes (request : ℕ) (records : List Record) : ℕ :=
  records.countP fun
    | .wrote writer _ _ => writer = request
    | _ => false

/-- How often a refused request of a group is written again. -/
def retriesOf (pacing : Option Pacing) (group : GroupName) : ℕ :=
  (pacing.map fun pacing => pacing.retriesOf group).getD 0

/-- The call a record is about. -/
def Record.request : Record → Option ℕ
  | .asked request _ _ | .wrote request _ _ | .ended request _ => some request
  | .rejected _ | .answered _ _ => none

variable {records : List Record} {record : Record} {request : ℕ}

/-- A refusal stays told. -/
theorem Refused.concat {clientMsgId : ℕ} (h : Refused clientMsgId records) (record : Record) :
    Refused clientMsgId (records ++ [record]) := by
  obtain ⟨retryAfterSecs, hmem⟩ := h
  exact ⟨retryAfterSecs, List.mem_append_left _ hmem⟩

/-- All but none of a request's refusals are all of them. -/
theorem refusedBut_none : RefusedBut none request records ↔ AllRefused request records := by
  unfold RefusedBut AllRefused
  simp

/-- A record of another request changes nothing of this one's refusals. -/
theorem RefusedBut.concat {except : Option ℕ} (h : RefusedBut except request records)
    (hrecord : record.request ≠ some request) :
    RefusedBut except request (records ++ [record]) := by
  intro before clientMsgId generation after hsplit
  rcases Machine.concat_split hsplit with ⟨earlier, rfl, hearlier⟩ | ⟨-, -, rfl⟩
  · exact (h before clientMsgId generation earlier hearlier).imp_right fun hrefused =>
      hrefused.concat record
  · exact absurd rfl hrecord

/-- The frame just written is the only one not refused. -/
theorem AllRefused.write (h : AllRefused request records) (clientMsgId generation : ℕ) :
    RefusedBut (some clientMsgId) request (records ++ [.wrote request clientMsgId generation]) := by
  intro before other generation' after hsplit
  rcases Machine.concat_split hsplit with ⟨earlier, rfl, hearlier⟩ | ⟨-, -, heq⟩
  · exact .inr ((h before other generation' earlier hearlier).concat _)
  · cases heq
    exact .inl rfl

/-- Once the one frame left is refused, all are. -/
theorem RefusedBut.answer {clientMsgId : ℕ} (h : RefusedBut (some clientMsgId) request records)
    (retryAfterSecs : ℚ) :
    AllRefused request (records ++ [.answered clientMsgId (.error (some retryAfterSecs))]) := by
  intro before other generation after hsplit
  rcases Machine.concat_split hsplit with ⟨earlier, rfl, hearlier⟩ | ⟨-, -, heq⟩
  · rcases h before other generation earlier hearlier with hsame | hrefused
    · obtain rfl := Option.some.inj hsame
      exact ⟨retryAfterSecs, by simp⟩
    · exact hrefused.concat _
  · cases heq

/-- A record adds its own write. -/
theorem writes_concat (request : ℕ) (records : List Record) (record : Record) :
    writes request (records ++ [record]) = writes request records + writes request [record] :=
  List.countP_append

/-- A record of another request adds none. -/
theorem writes_of_request_ne (h : record.request ≠ some request) :
    writes request (records ++ [record]) = writes request records := by
  rw [writes_concat]
  cases record with
  | wrote writer clientMsgId generation =>
    have hne : writer ≠ request := fun heq => h (by rw [heq]; rfl)
    simp [writes, hne]
  | asked => rfl
  | answered => rfl
  | ended => rfl
  | rejected => rfl

/-! ## What a run keeps -/

/-- The venue refused the frame for its rate limit. -/
def Answer.isRefusal : Answer → Bool
  | .reply (.error (some _)) => true
  | _ => false

namespace Stage

/-- The call is in `send()`. -/
def sending : Stage → Bool
  | .queued => false
  | .exchanging _ _ _ => true

/-- The frame of the call that need not be refused. -/
def unrefused : Stage → Option ℕ
  | .queued => none
  | .exchanging clientMsgId _ future =>
    if future.any Answer.isRefusal then none else some clientMsgId

end Stage

namespace Connection

/-- The number of the next request. -/
def next (c : Connection) : ℕ :=
  match c.scheduler with
  | some s => s.sequence
  | none => c.unpaced

/-- The call was refused `attempt` times; without a scheduler it is over when it is refused. -/
def Counts (c : Connection) (request : ℕ) (group : GroupName) (attempt : ℕ) (sending : Bool) : Prop :=
  match c.scheduler with
  | some s => s.ticket request = some ⟨group, attempt, sending⟩
  | none => attempt = 0

end Connection

/-- A call under way: it was asked once, it wrote a frame for each attempt, and each but the last
was refused. -/
structure Live (pacing : Option Pacing) (records : List Record) (c : Connection) (request : ℕ)
    (call : Request) : Prop where
  asked : .asked request call.group call.generation ∈ records
  only : ∀ group generation, .asked request group generation ∈ records →
    group = call.group ∧ generation = call.generation
  counted : ∃ attempt, c.Counts request call.group attempt call.stage.sending ∧
    attempt ≤ retriesOf pacing call.group ∧
    writes request records = attempt + if call.stage.sending then 1 else 0
  refused : RefusedBut call.stage.unrefused request records

/-- What the records of a run say of the calls. -/
structure Told (pacing : Option Pacing) (records : List Record) : Prop where
  bounded : ∀ request group generation, .asked request group generation ∈ records →
    writes request records ≤ 1 + retriesOf pacing group ∧
      ∀ clientMsgId generation', .wrote request clientMsgId generation' ∈ records →
        generation' = generation
  asked : ∀ request clientMsgId generation, .wrote request clientMsgId generation ∈ records →
    ∃ group generation', .asked request group generation' ∈ records
  rewritten : ∀ request before clientMsgId generation after,
    records = before ++ .wrote request clientMsgId generation :: after → AllRefused request before
  notSent : ∀ request before error after,
    records = before ++ .ended request (.raised error) :: after → error.isNotSent = true →
      AllRefused request before ∧
        ∀ clientMsgId generation, .wrote request clientMsgId generation ∉ after

/-- What holds along every run. -/
structure Lawful (pacing : Option Pacing) (records : List Record) (c : Connection) : Prop where
  told : Told pacing records
  paced : c.scheduler.map Scheduler.pacing = pacing
  live : ∀ request call, c.requests.get? request = some call → Live pacing records c request call
  fresh : ∀ request, c.next ≤ request →
    c.requests.get? request = none ∧ ∀ record ∈ records, record.request ≠ some request
  gone : ∀ request outcome, .ended request outcome ∈ records → c.requests.get? request = none

variable {pacing : Option Pacing} {c c' : Connection}

/-- A request of which nothing is told was not written. -/
theorem writes_eq_zero (h : ∀ record ∈ records, record.request ≠ some request) :
    writes request records = 0 := by
  refine List.countP_eq_zero.mpr fun record hmem => ?_
  have hne := h record hmem
  cases record with
  | wrote writer clientMsgId generation =>
    have hne : writer ≠ request := fun heq => hne (by rw [heq]; rfl)
    simpa using hne
  | _ => simp

/-! ### One more record -/

/-- A record that writes nothing and raises nothing unsent, and that names no new call. -/
theorem Told.note (h : Told pacing records) (hasked : ∀ request group generation,
      record = .asked request group generation → ∀ record ∈ records, record.request ≠ some request)
    (hwrote : ∀ request clientMsgId generation, record ≠ .wrote request clientMsgId generation)
    (hnotSent : ∀ request error, record = .ended request (.raised error) → error.isNotSent = true →
      AllRefused request records) :
    Told pacing (records ++ [record]) := by
  have hwritten : ∀ {request clientMsgId generation},
      .wrote request clientMsgId generation ∈ records ++ [record] →
        .wrote request clientMsgId generation ∈ records := by
    intro request clientMsgId generation hmem
    rcases List.mem_append.mp hmem with hold | hnew
    · exact hold
    · exact absurd (List.mem_singleton.mp hnew).symm (hwrote _ _ _)
  have hwrites : ∀ request, writes request (records ++ [record]) = writes request records := by
    intro request
    rw [writes_concat]
    cases record with
    | wrote writer clientMsgId generation => exact absurd rfl (hwrote _ _ _)
    | _ => rfl
  refine ⟨?_, ?_, ?_, ?_⟩
  · intro request group generation hmem
    rw [hwrites]
    rcases List.mem_append.mp hmem with hold | hnew
    · obtain ⟨hle, hgeneration⟩ := h.bounded request group generation hold
      exact ⟨hle, fun _ _ hwrote => hgeneration _ _ (hwritten hwrote)⟩
    · have hnone := hasked _ _ _ (List.mem_singleton.mp hnew).symm
      refine ⟨by rw [writes_eq_zero hnone]; omega, fun clientMsgId generation' hwrote => ?_⟩
      exact absurd rfl (hnone _ (hwritten hwrote))
  · intro request clientMsgId generation hmem
    obtain ⟨group, generation', hold⟩ := h.asked request clientMsgId generation (hwritten hmem)
    exact ⟨group, generation', List.mem_append_left _ hold⟩
  · intro request before clientMsgId generation after hsplit
    rcases Machine.concat_split hsplit with ⟨earlier, rfl, hearlier⟩ | ⟨-, -, heq⟩
    · exact h.rewritten request before clientMsgId generation earlier hearlier
    · exact absurd heq (hwrote _ _ _)
  · intro request before error after hsplit herror
    rcases Machine.concat_split hsplit with ⟨earlier, rfl, hearlier⟩ | ⟨rfl, rfl, heq⟩
    · obtain ⟨hrefused, hnone⟩ := h.notSent request before error earlier hearlier herror
      refine ⟨hrefused, fun clientMsgId generation hmem => ?_⟩
      rcases List.mem_append.mp hmem with hold | hnew
      · exact hnone _ _ hold
      · exact hwrote _ _ _ (List.mem_singleton.mp hnew).symm
    · exact ⟨hnotSent request error heq herror, fun _ _ hmem => by cases hmem⟩

/-- A frame written by a call that has an attempt left and that was refused every frame before. -/
theorem Told.write (h : Told pacing records) {call : Request} {attempt : ℕ}
    (hasked : .asked request call.group call.generation ∈ records)
    (honly : ∀ group generation, .asked request group generation ∈ records →
      group = call.group ∧ generation = call.generation)
    (hwrites : writes request records = attempt) (hle : attempt ≤ retriesOf pacing call.group)
    (hrefused : AllRefused request records)
    (hended : ∀ outcome, .ended request outcome ∉ records) (clientMsgId : ℕ) :
    Told pacing (records ++ [.wrote request clientMsgId call.generation]) := by
  have holdAsked : ∀ {request' group generation},
      .asked request' group generation ∈ records ++ [.wrote request clientMsgId call.generation] →
        .asked request' group generation ∈ records := by
    intro request' group generation hmem
    simpa using hmem
  refine ⟨?_, ?_, ?_, ?_⟩
  · intro request' group generation hmem
    obtain ⟨hbound, hgeneration⟩ := h.bounded request' group generation (holdAsked hmem)
    -- the frame counts for its own request, whose writes are those of the attempts before
    by_cases hsame : request' = request
    · subst hsame
      obtain ⟨rfl, rfl⟩ := honly group generation (holdAsked hmem)
      refine ⟨?_, fun other generation' hwrote => ?_⟩
      · rw [writes_concat, hwrites]
        have hone : writes request' [.wrote request' clientMsgId call.generation] = 1 := by
          simp [writes]
        omega
      · rcases List.mem_append.mp hwrote with hold | hnew
        · exact hgeneration other generation' hold
        · cases List.mem_singleton.mp hnew
          rfl
    · have hne : (Record.wrote request clientMsgId call.generation).request ≠ some request' :=
        fun heq => hsame (Option.some.inj heq).symm
      rw [writes_of_request_ne hne]
      refine ⟨hbound, fun other generation' hwrote => ?_⟩
      rcases List.mem_append.mp hwrote with hold | hnew
      · exact hgeneration other generation' hold
      · cases List.mem_singleton.mp hnew
        exact absurd rfl hsame
  · intro request' other generation hmem
    rcases List.mem_append.mp hmem with hold | hnew
    · obtain ⟨group, generation', hold⟩ := h.asked request' other generation hold
      exact ⟨group, generation', List.mem_append_left _ hold⟩
    · cases List.mem_singleton.mp hnew
      exact ⟨call.group, call.generation, List.mem_append_left _ hasked⟩
  · intro request' before other generation after hsplit
    -- the new frame is the last record: the request was refused every one before it
    rcases Machine.concat_split hsplit with ⟨earlier, rfl, hearlier⟩ | ⟨-, rfl, heq⟩
    · exact h.rewritten request' before other generation earlier hearlier
    · cases heq
      exact hrefused
  · intro request' before error after hsplit herror
    rcases Machine.concat_split hsplit with ⟨earlier, rfl, hearlier⟩ | ⟨-, -, heq⟩
    · obtain ⟨hbefore, hnone⟩ := h.notSent request' before error earlier hearlier herror
      refine ⟨hbefore, fun other generation hmem => ?_⟩
      rcases List.mem_append.mp hmem with hold | hnew
      · exact hnone _ _ hold
      · cases List.mem_singleton.mp hnew
        exact hended (.raised error) (by rw [hearlier]; simp)
    · cases heq

/-- A record that is not about a live call leaves what is known of it. -/
theorem Live.concat {call : Request} (h : Live pacing records c request call)
    (hrecord : record.request ≠ some request)
    (hcounts : ∀ attempt, c.Counts request call.group attempt call.stage.sending →
      c'.Counts request call.group attempt call.stage.sending) :
    Live pacing (records ++ [record]) c' request call := by
  obtain ⟨attempt, hcount, hle, hwrites⟩ := h.counted
  refine ⟨List.mem_append_left _ h.asked, ?_, ⟨attempt, hcounts attempt hcount, hle, ?_⟩,
    h.refused.concat hrecord⟩
  · intro group generation hmem
    rcases List.mem_append.mp hmem with hold | hnew
    · exact h.only group generation hold
    · exact absurd (by rw [← List.mem_singleton.mp hnew]; rfl) hrecord
  · rw [writes_of_request_ne hrecord]
    exact hwrites

/-! ### Steps of the calls -/

/-- What changes neither the calls nor what was told about them keeps everything. -/
theorem Lawful.update (h : Lawful pacing records c)
    (hpaced : c'.scheduler.map Scheduler.pacing = c.scheduler.map Scheduler.pacing)
    (hnext : c'.next = c.next)
    (hcounts : ∀ request group attempt sending, c.Counts request group attempt sending →
      c'.Counts request group attempt sending)
    (hrequests : ∀ request call', c'.requests.get? request = some call' →
      ∃ call, c.requests.get? request = some call ∧ call'.group = call.group ∧
        call'.generation = call.generation ∧ call'.stage.sending = call.stage.sending ∧
        RefusedBut call'.stage.unrefused request records) :
    Lawful pacing records c' := by
  have hnone : ∀ request, c.requests.get? request = none → c'.requests.get? request = none := by
    intro request hget
    cases hget' : c'.requests.get? request with
    | none => rfl
    | some call' =>
      obtain ⟨call, hcall, -⟩ := hrequests request call' hget'
      rw [hget] at hcall
      cases hcall
  refine ⟨h.told, hpaced.trans h.paced, ?_, ?_, ?_⟩
  · intro request call' hcall'
    obtain ⟨call, hcall, hgroup, hgeneration, hsending, hrefused⟩ := hrequests request call' hcall'
    have hlive := h.live request call hcall
    obtain ⟨attempt, hcount, hle, hwrites⟩ := hlive.counted
    refine ⟨by rw [hgroup, hgeneration]; exact hlive.asked, ?_, ⟨attempt, ?_, ?_, ?_⟩, hrefused⟩
    · intro group generation hasked
      rw [hgroup, hgeneration]
      exact hlive.only group generation hasked
    · rw [hgroup, hsending]
      exact hcounts _ _ _ _ hcount
    · rw [hgroup]
      exact hle
    · rw [hsending]
      exact hwrites
  · intro request hrequest
    rw [hnext] at hrequest
    obtain ⟨hget, hrecords⟩ := h.fresh request hrequest
    exact ⟨hnone request hget, hrecords⟩
  · exact fun request outcome hended => hnone request (h.gone request outcome hended)

/-- A record about no call keeps everything. -/
theorem Lawful.note (h : Lawful pacing records c) (hrecord : record.request = none) :
    Lawful pacing (records ++ [record]) c := by
  have hnot : ∀ request, record.request ≠ some request := fun request => by simp [hrecord]
  refine ⟨h.told.note ?_ ?_ ?_, h.paced, fun request call hcall =>
    (h.live request call hcall).concat (hnot request) fun _ hcount => hcount, ?_, ?_⟩
  · rintro request group generation rfl
    cases hrecord
  · rintro request clientMsgId generation rfl
    cases hrecord
  · rintro request error rfl
    cases hrecord
  · intro request hrequest
    obtain ⟨hget, hrecords⟩ := h.fresh request hrequest
    refine ⟨hget, fun found hmem => ?_⟩
    rcases List.mem_append.mp hmem with hold | hnew
    · exact hrecords found hold
    · rw [List.mem_singleton.mp hnew]
      exact hnot request
  · intro request outcome hmem
    rcases List.mem_append.mp hmem with hold | hnew
    · exact h.gone request outcome hold
    · rw [← List.mem_singleton.mp hnew] at hrecord
      cases hrecord

/-- A call that ends. -/
theorem Lawful.ends (h : Lawful pacing records c) {outcome : Outcome}
    (hpaced : c'.scheduler.map Scheduler.pacing = c.scheduler.map Scheduler.pacing)
    (hnext : c'.next = c.next) (hrequest : request < c.next)
    (hcounts : ∀ other group attempt sending, other ≠ request →
      c.Counts other group attempt sending → c'.Counts other group attempt sending)
    (hrequests : ∀ other, c'.requests.get? other =
      if other = request then none else c.requests.get? other)
    (hnotSent : ∀ error, outcome = .raised error → error.isNotSent = true →
      AllRefused request records) :
    Lawful pacing (records ++ [.ended request outcome]) c' := by
  have hnone : ∀ other, c.requests.get? other = none → c'.requests.get? other = none := by
    intro other hget
    rw [hrequests]
    split
    · rfl
    · exact hget
  -- an end is no question, no frame, and no `NotSent` after a frame
  refine ⟨h.told.note ?_ ?_ ?_, hpaced.trans h.paced, ?_, ?_, ?_⟩
  · intro other group generation heq
    cases heq
  · intro other clientMsgId generation heq
    cases heq
  · intro other error heq herror
    cases heq
    exact hnotSent error rfl herror
  · intro other call hcall
    rw [hrequests] at hcall
    split at hcall
    · cases hcall
    · rename_i hne
      refine (h.live other call hcall).concat (fun heq => hne (Option.some.inj heq).symm) ?_
      exact fun attempt hcount => hcounts other _ attempt _ hne hcount
  · intro other hother
    rw [hnext] at hother
    obtain ⟨hget, hrecords⟩ := h.fresh other hother
    refine ⟨hnone other hget, fun found hmem => ?_⟩
    rcases List.mem_append.mp hmem with hold | hnew
    · exact hrecords found hold
    · rw [List.mem_singleton.mp hnew]
      intro heq
      have : request = other := Option.some.inj heq
      omega
  · intro other ended hmem
    rcases List.mem_append.mp hmem with hold | hnew
    · exact hnone other (h.gone other ended hold)
    · cases List.mem_singleton.mp hnew
      rw [hrequests, if_pos rfl]

/-- A queued call that writes its frame. -/
theorem Lawful.write (h : Lawful pacing records c) {call : Request}
    (hcall : c.requests.get? request = some call) (hqueued : call.stage = .queued)
    {clientMsgId : ℕ} (hpaced : c'.scheduler.map Scheduler.pacing = c.scheduler.map Scheduler.pacing)
    (hnext : c'.next = c.next)
    (hcounts : ∀ other group attempt sending, other ≠ request →
      c.Counts other group attempt sending → c'.Counts other group attempt sending)
    (hsending : ∀ attempt, c.Counts request call.group attempt false →
      c'.Counts request call.group attempt true)
    (hrequests : ∀ other, c'.requests.get? other =
      if other = request then
        some ⟨call.group, call.generation, .exchanging clientMsgId false none⟩
      else c.requests.get? other) :
    Lawful pacing (records ++ [.wrote request clientMsgId call.generation]) c' := by
  have hlive := h.live request call hcall
  obtain ⟨attempt, hcount, hle, hwrites⟩ := hlive.counted
  rw [hqueued] at hcount hwrites
  -- a queued call was refused each frame it wrote
  have hrefused : AllRefused request records := by
    have := hlive.refused
    rw [hqueued] at this
    exact refusedBut_none.mp this
  have hrequest : request < c.next := by
    by_contra hge
    have := (h.fresh request (by omega)).1
    rw [hcall] at this
    cases this
  -- the call goes from the queue to the wire under the same attempt
  refine ⟨h.told.write hlive.asked hlive.only hwrites hle hrefused ?_ clientMsgId,
    hpaced.trans h.paced, ?_, ?_, ?_⟩
  · intro outcome hended
    have := h.gone request outcome hended
    rw [hcall] at this
    cases this
  · intro other call' hcall'
    rw [hrequests] at hcall'
    split at hcall'
    · rename_i hsame
      subst hsame
      cases hcall'
      refine ⟨List.mem_append_left _ hlive.asked, ?_, ⟨attempt, hsending attempt hcount, hle, ?_⟩,
        hrefused.write clientMsgId call.generation⟩
      · intro group generation hmem
        exact hlive.only group generation (by simpa using hmem)
      · rw [writes_concat, hwrites]
        simp [writes, Stage.sending]
    · rename_i hne
      refine (h.live other call' hcall').concat (fun heq => hne (Option.some.inj heq).symm) ?_
      exact fun attempt hcount => hcounts other _ attempt _ hne hcount
  · intro other hother
    rw [hnext] at hother
    obtain ⟨hget, hrecords⟩ := h.fresh other hother
    refine ⟨?_, fun found hmem => ?_⟩
    · rw [hrequests, if_neg (by omega)]
      exact hget
    · rcases List.mem_append.mp hmem with hold | hnew
      · exact hrecords found hold
      · rw [List.mem_singleton.mp hnew]
        intro heq
        have : request = other := Option.some.inj heq
        omega
  · intro other outcome hmem
    have hold : .ended other outcome ∈ records := by simpa using hmem
    have hget := h.gone other outcome hold
    rw [hrequests, if_neg]
    · exact hget
    · rintro rfl
      rw [hcall] at hget
      cases hget

/-- A refused call that is queued again. -/
theorem Lawful.requeue (h : Lawful pacing records c) {call : Request}
    (hcall : c.requests.get? request = some call) (hsent : call.stage.sending = true)
    (hrefused : call.stage.unrefused = none)
    (hpaced : c'.scheduler.map Scheduler.pacing = c.scheduler.map Scheduler.pacing)
    (hnext : c'.next = c.next)
    (hcounts : ∀ other group attempt sending, other ≠ request →
      c.Counts other group attempt sending → c'.Counts other group attempt sending)
    (hqueued : ∀ attempt, c.Counts request call.group attempt true →
      c'.Counts request call.group (attempt + 1) false ∧ attempt + 1 ≤ retriesOf pacing call.group)
    (hrequests : ∀ other, c'.requests.get? other =
      if other = request then some ⟨call.group, call.generation, .queued⟩
      else c.requests.get? other) :
    Lawful pacing records c' := by
  have hlive := h.live request call hcall
  obtain ⟨attempt, hcount, -, hwrites⟩ := hlive.counted
  rw [hsent] at hcount hwrites
  have hnone : ∀ other, c.requests.get? other = none → c'.requests.get? other = none := by
    intro other hget
    rw [hrequests, if_neg]
    · exact hget
    · rintro rfl
      rw [hcall] at hget
      cases hget
  refine ⟨h.told, hpaced.trans h.paced, ?_, ?_, ?_⟩
  · intro other call' hcall'
    rw [hrequests] at hcall'
    split at hcall'
    · rename_i hsame
      subst hsame
      cases hcall'
      -- the attempt counts up, and all its frames so far are refused
      obtain ⟨hcount', hle⟩ := hqueued attempt hcount
      refine ⟨hlive.asked, hlive.only, ⟨attempt + 1, hcount', hle, hwrites⟩, ?_⟩
      have hall := hlive.refused
      rw [hrefused] at hall
      exact hall
    · rename_i hne
      have hother := h.live other call' hcall'
      obtain ⟨attempt', hcount', hle', hwrites'⟩ := hother.counted
      exact ⟨hother.asked, hother.only, ⟨attempt', hcounts other _ _ _ hne hcount', hle', hwrites'⟩,
        hother.refused⟩
  · intro other hother
    rw [hnext] at hother
    obtain ⟨hget, hrecords⟩ := h.fresh other hother
    exact ⟨hnone other hget, hrecords⟩
  · exact fun other outcome hended => hnone other (h.gone other outcome hended)

/-- A new call has written nothing. -/
theorem allRefused_asked (hunused : ∀ record ∈ records, record.request ≠ some request)
    (group : GroupName) (generation : ℕ) :
    AllRefused request (records ++ [.asked request group generation]) := by
  intro before clientMsgId generation' after hsplit
  rcases Machine.concat_split hsplit with ⟨earlier, -, hearlier⟩ | ⟨-, -, heq⟩
  · exact absurd rfl (hunused (.wrote request clientMsgId generation') (by rw [hearlier]; simp))
  · cases heq

/-- A new call, queued or over at once. -/
theorem Lawful.ask (h : Lawful pacing records c) (hnew : request = c.next) (group : GroupName)
    (generation : ℕ)
    (hpaced : c'.scheduler.map Scheduler.pacing = c.scheduler.map Scheduler.pacing)
    (hnext : c'.next = c.next + 1)
    (hcounts : ∀ other group attempt sending, other ≠ request →
      c.Counts other group attempt sending → c'.Counts other group attempt sending)
    (hrequest : c'.requests.get? request = none ∨
      c'.requests.get? request = some ⟨group, generation, .queued⟩ ∧ c'.Counts request group 0 false)
    (hrequests : ∀ other, other ≠ request → c'.requests.get? other = c.requests.get? other) :
    Lawful pacing (records ++ [.asked request group generation]) c' := by
  obtain ⟨hget, hunused⟩ := h.fresh request (by omega)
  have hold : ∀ {other outcome}, .ended other outcome ∈ records ++ [.asked request group generation] →
      .ended other outcome ∈ records := by
    intro other outcome hmem
    simpa using hmem
  refine ⟨h.told.note ?_ ?_ ?_, hpaced.trans h.paced, ?_, ?_, ?_⟩
  · intro other group' generation' heq
    cases heq
    exact hunused
  · intro other clientMsgId generation' heq
    cases heq
  · intro other error heq
    cases heq
  · intro other call hcall
    by_cases hne : other = request
    · subst hne
      -- the call is over at once, or queued with no attempt behind it
      rcases hrequest with hnone | ⟨hqueued, hcount⟩
      · rw [hnone] at hcall
        cases hcall
      · rw [hqueued] at hcall
        cases hcall
        refine ⟨by simp, ?_, ⟨0, hcount, Nat.zero_le _, ?_⟩, ?_⟩
        · intro group' generation' hmem
          rcases List.mem_append.mp hmem with hold | hnew
          · exact absurd rfl (hunused _ hold)
          · cases List.mem_singleton.mp hnew
            exact ⟨rfl, rfl⟩
        · rw [writes_concat, writes_eq_zero hunused]
          rfl
        · exact refusedBut_none.mpr (allRefused_asked hunused group generation)
    · rw [hrequests other hne] at hcall
      refine (h.live other call hcall).concat (fun heq => hne (Option.some.inj heq).symm) ?_
      exact fun attempt hcount => hcounts other _ attempt _ hne hcount
  · intro other hother
    rw [hnext] at hother
    obtain ⟨hget', hrecords⟩ := h.fresh other (by omega)
    have hne : other ≠ request := by omega
    refine ⟨by rw [hrequests other hne]; exact hget', fun found hmem => ?_⟩
    rcases List.mem_append.mp hmem with hold | hnew
    · exact hrecords found hold
    · rw [List.mem_singleton.mp hnew]
      exact fun heq => hne (Option.some.inj heq).symm
  · intro other outcome hmem
    have hended := hold hmem
    have hne : other ≠ request := by
      rintro rfl
      exact absurd rfl (hunused _ hended)
    rw [hrequests other hne]
    exact h.gone other outcome hended

/-- A request under way was numbered before. -/
theorem Lawful.lt_next (h : Lawful pacing records c) {call : Request}
    (hcall : c.requests.get? request = some call) : request < c.next := by
  by_contra hge
  have hget := (h.fresh request (by omega)).1
  rw [hcall] at hget
  cases hget

/-! ### Steps of the connection -/

/-- With a scheduler, a request is counted by its ticket. -/
theorem counts_ticket {s : Scheduler} (hs : c.scheduler = some s) {group : GroupName} {attempt : ℕ}
    {sending : Bool} :
    c.Counts request group attempt sending ↔ s.ticket request = some ⟨group, attempt, sending⟩ := by
  unfold Connection.Counts
  rw [hs]

/-- Without one, it is written once. -/
theorem counts_unpaced (hs : c.scheduler = none) {group : GroupName} {attempt : ℕ} {sending : Bool} :
    c.Counts request group attempt sending ↔ attempt = 0 := by
  unfold Connection.Counts
  rw [hs]

/-- A scheduler that went on counts as it did before where it keeps the tickets. -/
theorem counts_some {s s' : Scheduler} (hs : c.scheduler = some s) (hs' : c'.scheduler = some s')
    {group : GroupName} {attempt : ℕ} {sending : Bool} (hticket : s'.ticket request = s.ticket request)
    (h : c.Counts request group attempt sending) : c'.Counts request group attempt sending := by
  rw [counts_ticket hs']
  rw [counts_ticket hs] at h
  rw [hticket]
  exact h

/-- With a scheduler, requests are numbered by it. -/
theorem next_some {s : Scheduler} (hs : c.scheduler = some s) : c.next = s.sequence := by
  unfold Connection.next
  rw [hs]

section Finish

variable (c) (request : ℕ) (outcome : Outcome)

/-- A request that ends changes no pacing. -/
theorem paced_finish : (c.finish request outcome).1.scheduler.map Scheduler.pacing =
    c.scheduler.map Scheduler.pacing := by
  show (c.scheduler.map _).map _ = _
  cases c.scheduler <;> rfl

/-- It uses no number. -/
theorem next_finish : (c.finish request outcome).1.next = c.next := by
  unfold Connection.next Connection.finish
  cases hs : c.scheduler <;> rfl

/-- It is the one that is gone. -/
theorem requests_finish (other : ℕ) : (c.finish request outcome).1.requests.get? other =
    if other = request then none else c.requests.get? other :=
  Dict.get?_erase _ _ _

/-- The others are counted as before. -/
theorem counts_finish {other : ℕ} {group : GroupName} {attempt : ℕ} {sending : Bool}
    (hne : other ≠ request) (h : c.Counts other group attempt sending) :
    (c.finish request outcome).1.Counts other group attempt sending := by
  cases hs : c.scheduler with
  | none =>
    have hs' : (c.finish request outcome).1.scheduler = none := by simp [Connection.finish, hs]
    rw [counts_unpaced hs] at h
    rw [counts_unpaced hs']
    exact h
  | some s =>
    have hs' : (c.finish request outcome).1.scheduler = some (s.drop request) := by
      simp [Connection.finish, hs]
    refine counts_some hs hs' ?_ h
    rw [Scheduler.ticket_drop, if_neg hne]

end Finish

/-- A live call that ends by itself. -/
theorem Lawful.finish (h : Lawful pacing records c) (hrequest : request < c.next) {outcome : Outcome}
    (hnotSent : ∀ error, outcome = .raised error → error.isNotSent = true →
      AllRefused request records) :
    Lawful pacing (records ++ (c.finish request outcome).2) (c.finish request outcome).1 :=
  h.ends (paced_finish c request outcome) (next_finish c request outcome) hrequest
    (fun _ _ _ _ hne hcount => counts_finish c request outcome hne hcount)
    (requests_finish c request outcome) hnotSent

/-- A queued call goes on with its exchange. -/
theorem Lawful.exchange (h : Lawful pacing records c) (c' : Connection) {group : GroupName}
    {generation : ℕ}
    (hcall : c.requests.get? request = some ⟨group, generation, .queued⟩)
    (hpaced : c'.scheduler.map Scheduler.pacing = c.scheduler.map Scheduler.pacing)
    (hnext : c'.next = c.next)
    (hcounts : ∀ other group attempt sending, other ≠ request →
      c.Counts other group attempt sending → c'.Counts other group attempt sending)
    (hsending : ∀ attempt, c.Counts request group attempt false → c'.Counts request group attempt true)
    (hrequests : ∀ other, other ≠ request → c'.requests.get? other = c.requests.get? other)
    (encodes : Bool) :
    Lawful pacing (records ++ (c'.exchange request group generation encodes).2)
      (c'.exchange request group generation encodes).1 := by
  have hrefused : AllRefused request records := refusedBut_none.mp (h.live request _ hcall).refused
  have hfinish : ∀ outcome, Lawful pacing (records ++ (c'.finish request outcome).2)
      (c'.finish request outcome).1 := by
    intro outcome
    refine h.ends ((paced_finish c' request outcome).trans hpaced)
      ((next_finish c' request outcome).trans hnext) (h.lt_next hcall) ?_ ?_ fun _ _ _ => hrefused
    · exact fun other _ _ _ hne hcount => counts_finish c' request outcome hne
        (hcounts other _ _ _ hne hcount)
    · intro other
      rw [requests_finish]
      split
      · rfl
      · rename_i hne
        exact hrequests other hne
  unfold Connection.exchange
  split
  · exact hfinish _
  split
  · exact hfinish _
  rename_i hopen
  have hgeneration : c'.generation = generation := by
    by_contra hne
    simp [hne] at hopen
  rw [hgeneration]
  refine h.write hcall rfl hpaced hnext hcounts hsending fun other => ?_
  show (c'.requests.set request _).get? other = _
  rw [Dict.get?_set]
  by_cases hne : other = request
  · rw [if_pos hne, if_pos hne.symm]
  · rw [if_neg hne, if_neg (Ne.symm hne)]
    exact hrequests other hne

/-- A request is made. -/
theorem Lawful.ask_step (h : Lawful pacing records c) (group : GroupName)
    (priority : RequestPriority) (elapsed : ℚ≥0) (encodes : Bool) :
    Lawful pacing (records ++ (c.ask group priority elapsed encodes).2)
      (c.ask group priority elapsed encodes).1 := by
  unfold Connection.ask
  split
  · exact h.note rfl
  split
  case h_1 hs =>
    have hnext : c.next = c.unpaced := by
      unfold Connection.next
      rw [hs]
    -- The new call as if it were queued first; its exchange starts at once.
    have hasked : Lawful pacing (records ++ [.asked c.unpaced group c.generation])
        { c with
          unpaced := c.unpaced + 1
          requests := c.requests.set c.unpaced ⟨group, c.generation, .queued⟩ } :=
      h.ask hnext.symm group c.generation rfl (by unfold Connection.next; rw [hs])
        (fun _ _ _ _ _ hcount => hcount)
        (.inr ⟨Dict.get?_set_self _ _ _, (counts_unpaced hs).mpr rfl⟩)
        fun other hne => Dict.get?_set_of_ne _ _ (Ne.symm hne)
    have hexchange := hasked.exchange { c with unpaced := c.unpaced + 1 }
      (Dict.get?_set_self _ _ _) rfl rfl (fun _ _ _ _ _ hcount => hcount)
      (fun attempt hcount => (counts_unpaced hs).mpr ((counts_unpaced hs).mp hcount))
      (fun other hne => (Dict.get?_set_of_ne _ _ (Ne.symm hne)).symm) encodes
    rw [List.append_assoc] at hexchange
    exact hexchange
  case h_2 s hs =>
    have hnext := next_some hs
    obtain ⟨hget, hunused⟩ := h.fresh s.sequence (by omega)
    have hticket := Scheduler.ticket_submit s group priority elapsed
    have hpacing := Scheduler.pacing_submit s group priority elapsed
    have hsequence := Scheduler.sequence_submit s group priority elapsed
    dsimp only
    cases hsubmit : s.submit group priority elapsed with
    | mk submitted raised =>
      rw [hsubmit] at hticket hpacing hsequence
      have hcounts : ∀ (requests : Dict ℕ Request) other group' attempt sending,
          other ≠ s.sequence → c.Counts other group' attempt sending →
            ({ c with scheduler := some submitted, requests := requests } : Connection).Counts other
              group' attempt sending := by
        intro requests other group' attempt sending hne hcount
        exact counts_some hs rfl (by rw [hticket, if_neg hne]) hcount
      have hpaced : (some submitted).map Scheduler.pacing = c.scheduler.map Scheduler.pacing := by
        rw [hs, Option.map_some, Option.map_some, hpacing]
      have hnext' : ∀ requests : Dict ℕ Request,
          ({ c with scheduler := some submitted, requests := requests } : Connection).next =
            c.next + 1 := fun requests => by rw [hnext]; exact hsequence
      cases raised with
      | none =>
        refine h.ask hnext.symm group c.generation hpaced (hnext' _) (hcounts _)
          (.inr ⟨Dict.get?_set_self _ _ _, ?_⟩) fun other hne => Dict.get?_set_of_ne _ _ (Ne.symm hne)
        exact (counts_ticket rfl).mpr (by rw [hticket, if_pos rfl, if_pos rfl])
      | some raised =>
        have hasked : Lawful pacing (records ++ [.asked s.sequence group c.generation])
            { c with scheduler := some submitted } :=
          h.ask hnext.symm group c.generation hpaced (hnext' _) (hcounts _) (.inl hget) fun _ _ => rfl
        have hgone : ∀ other, c.requests.get? other =
            if other = s.sequence then none else c.requests.get? other := by
          intro other
          split
          · rename_i hsame
            subst hsame
            exact hget
          · rfl
        have hended : Lawful pacing (records ++ [.asked s.sequence group c.generation] ++
            [.ended s.sequence (.raised (Connection.errorOf none raised))])
            { c with scheduler := some submitted } :=
          hasked.ends rfl rfl (by rw [hnext']; omega) (fun _ _ _ _ _ hcount => hcount) hgone
            fun _ _ _ => allRefused_asked hunused group c.generation
        rw [List.append_assoc] at hended
        exact hended

/-- What a step of the scheduler for one call leaves of the others. -/
theorem counts_step {s s' : Scheduler} (hs : c.scheduler = some s) {ticket : Option Ticket}
    (hticket : ∀ call, s'.ticket call = if call = request then ticket else s.ticket call)
    (requests : Dict ℕ Request) (pending : Dict ℕ ℕ) :
    ∀ other group attempt sending, other ≠ request → c.Counts other group attempt sending →
      ({ c with scheduler := some s', requests := requests, pending := pending } : Connection).Counts
        other group attempt sending := by
  intro other group attempt sending hne hcount
  exact counts_some hs rfl (by rw [hticket, if_neg hne]) hcount

/-- A request that waited for its turn is written, or fails to encode. -/
theorem Lawful.wake (h : Lawful pacing records c) (request : ℕ) (elapsed : ℚ≥0) (encodes : Bool) :
    Lawful pacing (records ++ (c.wake request elapsed encodes).2)
      (c.wake request elapsed encodes).1 := by
  unfold Connection.wake
  split
  case h_2 => simpa using h
  case h_1 s group generation hs hcall =>
    have hlive := h.live request _ hcall
    obtain ⟨attempt, hcount, -, -⟩ := hlive.counted
    have hqueued : s.ticket request = some ⟨group, attempt, false⟩ := (counts_ticket hs).mp hcount
    have hticket := Scheduler.ticket_wake s hqueued elapsed
    obtain ⟨hpacing, hsequence⟩ := Scheduler.sameSetup_wake s request elapsed
    cases hwake : s.wake request elapsed with
    | mk woken raised =>
      rw [hwake] at hticket hpacing hsequence
      have hpaced : (some woken).map Scheduler.pacing = c.scheduler.map Scheduler.pacing := by
        rw [hs, Option.map_some, Option.map_some, hpacing]
      have hnext : ∀ requests : Dict ℕ Request,
          ({ c with scheduler := some woken, requests := requests } : Connection).next = c.next :=
        fun requests => by rw [next_some hs]; exact hsequence
      have hcounts := fun requests => counts_step hs hticket requests c.pending
      cases raised with
      | none =>
        refine h.exchange _ hcall hpaced (hnext _) (hcounts _) ?_ (fun _ _ => rfl) encodes
        intro attempt' hcount'
        have hsame := (counts_ticket hs).mp hcount'
        rw [hqueued] at hsame
        cases hsame
        exact (counts_ticket rfl).mpr (by rw [hticket, if_pos rfl, if_pos rfl])
      | some raised =>
        exact h.ends hpaced (hnext _) (h.lt_next hcall) (hcounts _)
          (fun other => Dict.get?_erase _ _ _) fun _ _ _ => refusedBut_none.mp hlive.refused

/-- One call changes within its stage. -/
theorem Lawful.update_one (h : Lawful pacing records c) {call : Request}
    (hcall : c.requests.get? request = some call) (call' : Request)
    (hpaced : c'.scheduler.map Scheduler.pacing = c.scheduler.map Scheduler.pacing)
    (hnext : c'.next = c.next)
    (hcounts : ∀ request group attempt sending, c.Counts request group attempt sending →
      c'.Counts request group attempt sending)
    (hgroup : call'.group = call.group) (hgeneration : call'.generation = call.generation)
    (hsending : call'.stage.sending = call.stage.sending)
    (hrefused : RefusedBut call'.stage.unrefused request records)
    (hrequests : ∀ other, c'.requests.get? other =
      if request = other then some call' else c.requests.get? other) :
    Lawful pacing records c' := by
  refine h.update hpaced hnext hcounts fun other found hfound => ?_
  rw [hrequests] at hfound
  split at hfound
  · rename_i hsame
    subst hsame
    cases hfound
    exact ⟨call, hcall, hgroup, hgeneration, hsending, hrefused⟩
  · exact ⟨found, hfound, rfl, rfl, rfl, (h.live other found hfound).refused⟩

/-- The write of a request is through, or failed. -/
theorem Lawful.drain (h : Lawful pacing records c) (request : ℕ) (succeeds : Bool) :
    Lawful pacing (records ++ (c.drain request succeeds).2) (c.drain request succeeds).1 := by
  unfold Connection.drain
  split
  case h_2 => simpa using h
  case h_1 group generation clientMsgId future hcall =>
    have hlive := h.live request _ hcall
    split
    · rw [List.append_nil]
      exact h.update_one hcall ⟨group, generation, .exchanging clientMsgId true future⟩ rfl rfl
        (fun _ _ _ _ hcount => hcount) rfl rfl rfl hlive.refused fun other => Dict.get?_set _ _ _ _
    · refine h.finish (h.lt_next hcall) fun error heq hnotSent => ?_
      cases heq
      cases hnotSent

/-- A reply comes. -/
theorem Lawful.receive (h : Lawful pacing records c) (clientMsgId : ℕ) (reply : Reply) :
    Lawful pacing (records ++ (c.receive clientMsgId reply).2) (c.receive clientMsgId reply).1 := by
  have hnote : Lawful pacing (records ++ [.answered clientMsgId reply]) c := h.note rfl
  have hpopped : Lawful pacing (records ++ [.answered clientMsgId reply])
      { c with pending := c.pending.erase clientMsgId } :=
    hnote.update rfl rfl (fun _ _ _ _ hcount => hcount) fun request call hcall =>
      ⟨call, hcall, rfl, rfl, rfl, (hnote.live request call hcall).refused⟩
  unfold Connection.receive
  split
  · simpa using h
  split
  case h_1 => exact hnote
  case h_2 request _ =>
  dsimp only
  split
  case h_2 => exact hpopped
  case h_1 group generation own drained hcall =>
    split
    case isFalse => exact hpopped
    case isTrue hown =>
      subst hown
      refine hpopped.update_one hcall
        ⟨group, generation, .exchanging own drained (some (.reply reply))⟩ rfl rfl
        (fun _ _ _ _ hcount => hcount) rfl rfl rfl ?_ fun other => Dict.get?_set _ _ _ _
      -- A refusal answers the one frame that was left.
      have hbut : RefusedBut (some own) request records := (h.live request _ hcall).refused
      cases reply with
      | response => exact hbut.concat (by simp [Record.request])
      | error retryAfterSecs =>
        cases retryAfterSecs with
        | none => exact hbut.concat (by simp [Record.request])
        | some retryAfterSecs => exact refusedBut_none.mpr (hbut.answer retryAfterSecs)

/-- A request goes on with its reply: it ends, or is queued again. -/
theorem Lawful.resume (h : Lawful pacing records c) (request : ℕ) (elapsed requeued : ℚ≥0) :
    Lawful pacing (records ++ (c.resume request elapsed requeued).2)
      (c.resume request elapsed requeued).1 := by
  unfold Connection.resume
  split
  case h_2 => simpa using h
  case h_1 group generation clientMsgId answer hcall =>
    have hlt := h.lt_next hcall
    have hlive := h.live request _ hcall
    -- only an error that names a delay can put the call back into the queue
    cases answer with
    | lost loss => exact h.finish hlt fun error heq hnotSent => by cases heq; cases hnotSent
    | reply reply =>
      cases reply with
      | response => exact h.finish hlt fun error heq => by cases heq
      | error retryAfterSecs =>
        cases retryAfterSecs with
        | none => exact h.finish hlt fun error heq hnotSent => by cases heq; cases hnotSent
        | some retryAfterSecs =>
          dsimp only
          split
          case h_1 => exact h.finish hlt fun error heq hnotSent => by cases heq; cases hnotSent
          case h_2 s hs =>
            obtain ⟨attempt, hcount, -, -⟩ := hlive.counted
            have hsent : s.ticket request = some ⟨group, attempt, true⟩ := (counts_ticket hs).mp hcount
            have hticket := Scheduler.ticket_refused s hsent retryAfterSecs elapsed requeued
            have hattempt : (s.refused request retryAfterSecs elapsed requeued).2 = none →
                attempt + 1 ≤ s.pacing.retriesOf group := Scheduler.attempt_refused s hsent
            obtain ⟨hpacing, hsequence⟩ :=
              Scheduler.sameSetup_refused s request retryAfterSecs elapsed requeued
            have hretries : retriesOf pacing group = s.pacing.retriesOf group := by
              rw [← h.paced, hs]
              rfl
            cases hrefused : s.refused request retryAfterSecs elapsed requeued with
            | mk s' raised =>
              rw [hrefused] at hticket hattempt hpacing hsequence
              have hpaced : (some s').map Scheduler.pacing = c.scheduler.map Scheduler.pacing := by
                rw [hs, Option.map_some, Option.map_some, hpacing]
              have hnext : ∀ (requests : Dict ℕ Request) (pending : Dict ℕ ℕ),
                  ({ c with scheduler := some s', requests := requests, pending := pending } :
                    Connection).next = c.next := fun _ _ => by rw [next_some hs]; exact hsequence
              have hcounts := counts_step hs hticket
              -- the scheduler queues it again while it has attempts left
              cases raised with
              | none =>
                dsimp only
                rw [List.append_nil]
                refine h.requeue hcall rfl rfl hpaced (hnext _ _) (hcounts _ _) ?_ fun other => ?_
                · intro attempt' hcount'
                  have hsame := (counts_ticket hs).mp hcount'
                  rw [hsent] at hsame
                  cases hsame
                  refine ⟨(counts_ticket rfl).mpr ?_, by rw [hretries]; exact hattempt rfl⟩
                  rw [hticket, if_pos rfl, if_pos rfl]
                · show (c.requests.set request _).get? other = _
                  rw [Dict.get?_set]
                  by_cases hne : other = request
                  · rw [if_pos hne, if_pos hne.symm]
                  · rw [if_neg hne, if_neg (Ne.symm hne)]
              | some raised =>
                exact h.ends hpaced (hnext _ _) hlt (hcounts _ _)
                  (fun other => Dict.get?_erase _ _ _) fun _ _ _ => refusedBut_none.mp hlive.refused

/-- A request runs out of time. -/
theorem Lawful.timeOut (h : Lawful pacing records c) (request : ℕ) :
    Lawful pacing (records ++ (c.timeOut request).2) (c.timeOut request).1 := by
  unfold Connection.timeOut
  split
  case h_2 => simpa using h
  case h_1 hcall =>
    exact h.finish (h.lt_next hcall) fun error heq hnotSent => by cases heq; cases hnotSent

/-- A request is cancelled. -/
theorem Lawful.cancel (h : Lawful pacing records c) (request : ℕ) :
    Lawful pacing (records ++ (c.cancel request).2) (c.cancel request).1 := by
  unfold Connection.cancel
  split
  case h_2 => simpa using h
  case h_1 hcall => exact h.finish (h.lt_next hcall) fun error heq => by cases heq

/-- The futures of a lost connection get its loss, and none of them a refusal. -/
theorem Lawful.rejectPending (h : Lawful pacing records c) (loss : Loss) :
    Lawful pacing records (c.rejectPending loss) := by
  refine h.update rfl rfl (fun _ _ _ _ hcount => hcount) fun request call' hcall' => ?_
  unfold Connection.rejectPending at hcall'
  rw [Dict.get?_mapAccum] at hcall'
  obtain ⟨⟨group, generation, stage⟩, hcall, heq⟩ := Option.map_eq_some_iff.mp hcall'
  refine ⟨_, hcall, ?_⟩
  have hrefused := (h.live request _ hcall).refused
  subst heq
  dsimp only
  split
  · split
    · exact ⟨rfl, rfl, rfl, hrefused⟩
    · exact ⟨rfl, rfl, rfl, hrefused⟩
  · exact ⟨rfl, rfl, rfl, hrefused⟩

/-- A step of the scheduler that is about no call in particular. -/
theorem Lawful.schedule (h : Lawful pacing records c) {f : Scheduler → Scheduler}
    (hticket : ∀ s, (f s).ticket = s.ticket) (hsetup : ∀ s, Scheduler.SameSetup s (f s))
    (hscheduler : c'.scheduler = c.scheduler.map f) (hunpaced : c'.unpaced = c.unpaced)
    (hrequests : c'.requests = c.requests) : Lawful pacing records c' := by
  have hcalls : ∀ request call', c'.requests.get? request = some call' →
      ∃ call, c.requests.get? request = some call ∧ call'.group = call.group ∧
        call'.generation = call.generation ∧ call'.stage.sending = call.stage.sending ∧
        RefusedBut call'.stage.unrefused request records := by
    intro request call' hcall'
    rw [hrequests] at hcall'
    exact ⟨call', hcall', rfl, rfl, rfl, (h.live request call' hcall').refused⟩
  cases hs : c.scheduler with
  | none =>
    have hs' : c'.scheduler = none := by rw [hscheduler, hs]; rfl
    refine h.update (by rw [hs, hs']) ?_ (fun request group attempt sending hcount => ?_) hcalls
    · unfold Connection.next
      rw [hs, hs']
      exact hunpaced
    · rw [counts_unpaced hs] at hcount
      exact (counts_unpaced hs').mpr hcount
  | some s =>
    have hs' : c'.scheduler = some (f s) := by rw [hscheduler, hs]; rfl
    refine h.update ?_ ?_ (fun request group attempt sending hcount => ?_) hcalls
    · rw [hs, hs', Option.map_some, Option.map_some, (hsetup s).1]
    · rw [next_some hs, next_some hs']
      exact (hsetup s).2
    · exact counts_some hs hs' (by rw [hticket]) hcount

/-- Every step keeps the law. -/
theorem lawful_step (h : Lawful pacing records c) (action : Action) :
    Lawful pacing (records ++ (machine.step c action).2) (machine.step c action).1 := by
  cases action with
  | ask group priority elapsed encodes => exact h.ask_step group priority elapsed encodes
  | wake request elapsed encodes => exact h.wake request elapsed encodes
  | drain request succeeds => exact h.drain request succeeds
  | receive clientMsgId reply => exact h.receive clientMsgId reply
  | resume request elapsed requeued => exact h.resume request elapsed requeued
  | timeOut request => exact h.timeOut request
  | cancel request => exact h.cancel request
  | fail loss message =>
    show Lawful pacing (records ++ []) (c.fail loss message)
    rw [List.append_nil]
    exact (h.rejectPending loss).schedule (Scheduler.ticket_failAll message)
      (Scheduler.sameSetup_failAll message) rfl rfl rfl
  | close =>
    show Lawful pacing (records ++ []) c.beginClose
    rw [List.append_nil]
    exact (h.rejectPending .connectionError).schedule (Scheduler.ticket_failAll _)
      (Scheduler.sameSetup_failAll _) rfl rfl rfl
  | connect =>
    show Lawful pacing (records ++ []) c.connect
    rw [List.append_nil]
    unfold Connection.connect
    split
    · exact h
    · exact h.schedule Scheduler.ticket_reset (fun _ => ⟨rfl, rfl⟩) rfl rfl rfl
  | dispatch group elapsed =>
    show Lawful pacing (records ++ []) (c.dispatch group elapsed)
    rw [List.append_nil]
    exact h.schedule (fun s => Scheduler.ticket_dispatch s group elapsed)
      (fun s => Scheduler.sameSetup_dispatch s group elapsed) rfl rfl rfl

/-- A new connection keeps it. -/
theorem lawful_new (pacing : Option Pacing) (clock : ℚ) : Lawful pacing [] (new pacing clock) where
  told :=
    { bounded := fun _ _ _ hmem => by cases hmem
      asked := fun _ _ _ hmem => by cases hmem
      rewritten := fun _ _ _ _ _ hsplit => by simp at hsplit
      notSent := fun _ _ _ _ hsplit => by simp at hsplit }
  paced := by
    show (pacing.map _).map _ = pacing
    cases pacing <;> rfl
  live _ _ hcall := by cases hcall
  fresh _ _ := ⟨rfl, fun _ hmem => by cases hmem⟩
  gone _ _ hmem := by cases hmem

/-- A call writes its frame once and again only for a retry it has left, each time only after the
venue refused every frame it wrote before for its rate limit, and only on the connection it was asked
on; and if it raises an error that says it was not sent, every frame it ever wrote was refused so. -/
theorem requests_lawful (pacing : Option Pacing) (clock : ℚ) (actions : List Action) (request : ℕ) :
    let records := machine.told (new pacing clock) actions
    (∀ group generation, .asked request group generation ∈ records →
      writes request records ≤ 1 + retriesOf pacing group ∧
        ∀ clientMsgId generation', .wrote request clientMsgId generation' ∈ records →
          generation' = generation) ∧
    (∀ clientMsgId generation, .wrote request clientMsgId generation ∈ records →
      ∃ group generation', .asked request group generation' ∈ records) ∧
    (∀ before clientMsgId generation after,
      records = before ++ .wrote request clientMsgId generation :: after →
        AllRefused request before) ∧
    ∀ before error after, records = before ++ .ended request (.raised error) :: after →
      error.isNotSent = true →
        AllRefused request before ∧
          ∀ clientMsgId generation, .wrote request clientMsgId generation ∉ after := by
  have hlawful := Machine.told_invariant (I := Lawful pacing)
    (fun _ _ action h => lawful_step h action) (lawful_new pacing clock) actions
  exact ⟨hlawful.told.bounded request, hlawful.told.asked request, hlawful.told.rewritten request,
    hlawful.told.notSent request⟩

/-- A refused historical request is written again, once its pause and its window have passed. -/
example :
    machine.told (new (some onePerSecond) 0)
      [.connect, .ask .historical .data 0 true, .dispatch .historical 0, .wake 0 0 true,
        .drain 0 true, .receive 0 (.error (some 1)), .resume 0 0 0, .dispatch .historical 1,
        .dispatch .historical 1, .wake 0 0 true] =
    [.asked 0 .historical 1, .wrote 0 0 1, .answered 0 (.error (some 1)), .wrote 0 1 1] := by
  decide +kernel

end Transport

end NautilusCtrader
