import NautilusCtrader.Wire.Streams

/-!
# Bytes that are not what was sent

Whatever bytes arrive, the connection acts upon what is framed in them alone: each message it hands on
comes from a frame of its own, in the order of the stream, and a response only goes to a request that was
made under the message's id (`told_framed`). Where the stream is cut does not matter (`told_cut`).
-/

namespace NautilusCtrader

open Common

namespace Wire

variable {M : Type} {schema : Schema M}

/-! ## What a dispatch does -/

/-- What a connection hands on of an envelope, and the requests that it leaves pending. -/
inductive Handed (schema : Schema M) (c : Connection) (envelope : Envelope) :
    Dict String Future → List (Told M) → Prop
  | nothing : Handed schema c envelope c.pending []
  | event {payload : Payload M} (hparse : parsePayload schema envelope = .ok payload) :
    Handed schema c envelope c.pending [.event payload]
  /-- The id of the message was not, or no longer, waited for. -/
  | late {payload : Payload M} {id : String} (hparse : parsePayload schema envelope = .ok payload)
    (hpending : ∀ request, c.pending.get? id ≠ some ⟨request, false⟩) :
    Handed schema c envelope (c.pending.erase id) [.event payload]
  | result {payload : Payload M} {id : String} {request : ℕ}
    (hparse : parsePayload schema envelope = .ok payload) (hid : envelope.clientMsgId = some id)
    (hpending : c.pending.get? id = some ⟨request, false⟩) :
    Handed schema c envelope (c.pending.erase id)
      [.result request ((asRequestError payload).elim (.response payload) .error)]

/-- Dispatching hands the message over as `Handed` says, and changes the futures alone. -/
theorem dispatch_handed (c : Connection) (envelope : Envelope) :
    ∃ pending told, c.dispatch schema envelope = ({ c with pending }, told) ∧
      Handed schema c envelope pending told := by
  unfold Connection.dispatch
  split
  · exact ⟨_, _, rfl, .nothing⟩
  split
  · exact ⟨_, _, rfl, .nothing⟩
  cases hparse : parsePayload schema envelope with
  | error message => exact ⟨_, _, rfl, .nothing⟩
  | ok payload =>
    dsimp only
    unfold Connection.give
    split
    · exact ⟨_, _, rfl, .event hparse⟩
    · rename_i hid
      obtain ⟨id, hsome⟩ : ∃ id, envelope.clientMsgId = some id := by
        cases henvelope : envelope.clientMsgId with
        | none => rw [henvelope] at hid; exact absurd rfl hid
        | some id => exact ⟨id, rfl⟩
      rw [hsome, Option.getD_some]
      dsimp only
      split
      · rename_i request hpending
        exact ⟨_, _, rfl, .result hparse hsome hpending⟩
      · rename_i hpending
        exact ⟨_, _, rfl, .late hparse fun request hget => hpending request hget⟩

/-! ## What is heard -/

/-- Whether the connection tells of its loss. -/
def Told.isLoss : Told M → Bool
  | .result _ (.lost _) | .disconnected _ => true
  | _ => false

/-- What the connection hands on of what it reads. -/
def heard (told : List (Told M)) : List (Told M) := told.filter fun t => !t.isLoss

/-- What is heard is heard piece by piece. -/
theorem heard_append (told more : List (Told M)) : heard (told ++ more) = heard told ++ heard more :=
  List.filter_append _ _

/-- What an envelope lets the connection tell, after `inputs`. -/
inductive Heard (schema : Schema M) (inputs : List Input) (envelope : Envelope) : Told M → Prop
  | event {payload : Payload M} (hparse : parsePayload schema envelope = .ok payload) :
    Heard schema inputs envelope (.event payload)
  | result {payload : Payload M} {id : String} {request : ℕ}
    (hparse : parsePayload schema envelope = .ok payload) (hid : envelope.clientMsgId = some id)
    (hrequest : .request id request ∈ inputs) :
    Heard schema inputs envelope
      (.result request ((asRequestError payload).elim (.response payload) .error))

/-- Each request that is pending was made. -/
def Made (inputs : List Input) (c : Connection) : Prop :=
  ∀ id future, c.pending.get? id = some future → .request id future.request ∈ inputs

/-- Failing the pending requests makes nothing heard. -/
theorem heard_rejectPending (c : Connection) (error : LossError) :
    heard (@Connection.rejectPending M c error).2 = [] := by
  refine List.filter_eq_nil_iff.mpr fun told htold => ?_
  obtain ⟨future, -, rfl⟩ := List.mem_map.mp htold
  exact Bool.false_ne_true

/-- Nor does a loss. -/
theorem heard_fail (c : Connection) (error : LossError) : heard (@Connection.fail M c error).2 = [] := by
  unfold Connection.fail
  dsimp only
  rw [heard_append, heard_rejectPending]
  split <;> rfl

/-- Nor does any input but bytes. -/
theorem heard_other (c : Connection) {input : Input} (hdata : input.isData = false) :
    heard ((machine schema).step c input).2 = [] := by
  cases input with
  | data chunk => cases hdata
  | endOfStream | readFails detail =>
    show heard (if c.reading then _ else (c, [])).2 = []
    split
    · exact heard_fail _ _
    · rfl
  | silence secs =>
    show heard (if c.connected then _ else (c, [])).2 = []
    split
    · exact heard_fail _ _
    · rfl
  | beginClose => exact heard_rejectPending _ _
  | request id request =>
    show heard (if c.connected then _ else (c, [])).2 = []
    split <;> rfl
  | abandoned id | forgotten id => rfl

/-- Forgetting a future keeps those left made by the inputs. -/
theorem made_erase {inputs : List Input} {c : Connection} (h : Made inputs c) (id : String) :
    Made inputs { c with pending := c.pending.erase id } :=
  fun _ _ hget => h _ _ (Dict.get?_erase_eq_some.mp hget).2

/-- What is told of the envelopes of a chunk, in turn. -/
theorem dispatchAll_heard {inputs : List Input} (envelopes : List Envelope) {c : Connection}
    (hmade : Made inputs c) :
    Made inputs (c.dispatchAll schema envelopes).1 ∧
      (∃ pending, (c.dispatchAll schema envelopes).1 = { c with pending }) ∧
      ∃ read, read.Sublist envelopes ∧
        List.Forall₂ (Heard schema inputs) read (heard (c.dispatchAll schema envelopes).2) := by
  induction envelopes generalizing c with
  | nil => exact ⟨hmade, ⟨_, rfl⟩, [], List.Sublist.slnil, .nil⟩
  | cons envelope envelopes ih =>
    obtain ⟨pending, told, hdispatch, hhanded⟩ := @dispatch_handed _ schema c envelope
    have hmade' : Made inputs { c with pending } := by
      cases hhanded with
      | nothing | event => exact hmade
      | late | result => exact made_erase hmade _
    obtain ⟨hrest, ⟨pending', hafter'⟩, read, hsub, hread⟩ := ih hmade'
    rw [Connection.dispatchAll, hdispatch]
    refine ⟨hrest, ⟨pending', hafter'⟩, ?_⟩
    dsimp only
    rw [heard_append]
    cases hhanded with
    | nothing => exact ⟨read, hsub.cons _, hread⟩
    | event hparse | late hparse =>
      exact ⟨envelope :: read, hsub.cons_cons _, .cons (.event hparse) hread⟩
    | @result payload id request hparse hid hget =>
      refine ⟨envelope :: read, hsub.cons_cons _, ?_⟩
      have hrequest : .request id request ∈ inputs := hmade id _ hget
      have hkept : heard [Told.result request ((asRequestError payload).elim (.response payload) .error)] =
          [.result request ((asRequestError payload).elim (.response payload) .error)] := by
        cases asRequestError payload <;> rfl
      rw [hkept]
      exact .cons (.result hparse hid hrequest) hread

/-- A connection that reads no more hands nothing on. -/
theorem heard_unread (inputs : List Input) {c : Connection} (hreading : c.reading = false) :
    heard ((machine schema).told c inputs) = [] := by
  induction inputs generalizing c with
  | nil => rfl
  | cons input inputs ih =>
    rw [Machine.told_cons, heard_append, ih (unread_step hreading input), List.append_nil]
    cases hdata : input.isData with
    | false => exact heard_other c hdata
    | true =>
      cases input with
      | data chunk =>
        show heard (if c.reading then _ else (c, [])).2 = []
        rw [hreading]
        rfl
      | _ => cases hdata

/-- A loss leaves no future. -/
theorem made_fail {inputs : List Input} (c : Connection) (error : LossError) :
    Made inputs (@Connection.fail M c error).1 := by
  intro id future hget
  cases hget

/-- An input that brings no bytes keeps the futures made by the inputs. -/
theorem made_other {all : List Input} {c : Connection} (hmade : Made all c) {input : Input}
    (hinput : input ∈ all) (hdata : input.isData = false) :
    Made all ((machine schema).step c input).1 := by
  cases input with
  | data chunk => cases hdata
  | endOfStream | readFails detail =>
    show Made all (if c.reading then _ else (c, [])).1
    split
    · exact @made_fail M _ _ _
    · exact hmade
  | silence secs =>
    show Made all (if c.connected then _ else (c, [])).1
    split
    · exact @made_fail M _ _ _
    · exact hmade
  | beginClose =>
    intro id future hget
    cases hget
  | request id request =>
    show Made all (if c.connected then _ else (c, [])).1
    split
    · intro other future hget
      rcases Dict.get?_set_eq_some.mp hget with ⟨rfl, rfl⟩ | ⟨-, hget⟩
      · exact hinput
      · exact hmade other future hget
    · exact hmade
  | abandoned id =>
    intro other future hget
    dsimp only [machine, Connection.abandon] at hget
    cases hfound : c.pending.get? id with
    | none =>
      rw [hfound] at hget
      exact hmade other future hget
    | some found =>
      rw [hfound] at hget
      rcases Dict.get?_set_eq_some.mp hget with ⟨rfl, rfl⟩ | ⟨-, hget⟩
      · exact hmade id found hfound
      · exact hmade other future hget
  | forgotten id => exact made_erase hmade id

/-- While the loop reads, bytes are fed and their messages dispatched in order. -/
theorem step_data_reading {c : Connection} (hreading : c.reading = true) (chunk : List UInt8) :
    (machine schema).step c (.data chunk) =
      let fed := (framing schema).feed c.reader chunk
      let dispatched := Connection.dispatchAll schema { c with reader := fed.1 } fed.2
      match fed.1.ended with
      | none => dispatched
      | some error =>
        let failed := dispatched.1.stopReading (.protocol error)
        (failed.1, dispatched.2 ++ failed.2) := if_pos hreading

/-- What a connection that reads hands on, from a reader on. -/
theorem told_heard {all : List Input} (inputs : List Input) {c : Connection} (hmade : Made all c)
    (hall : ∀ input ∈ inputs, input ∈ all) (hreading : c.reading = true) :
    ∃ read, read.Sublist ((framing schema).feed c.reader (arrived inputs)).2 ∧
      List.Forall₂ (Heard schema all) read (heard ((machine schema).told c inputs)) := by
  -- on the inputs; the futures stay those that earlier requests made
  induction inputs generalizing c with
  | nil => exact ⟨[], List.nil_sublist _, .nil⟩
  | cons input inputs ih =>
    have hinput : input ∈ all := hall input List.mem_cons_self
    have hrest : ∀ i ∈ inputs, i ∈ all := fun i hi => hall i (List.mem_cons_of_mem _ hi)
    cases hdata : input.isData with
    | false =>
      have hmade' := @made_other _ schema _ _ hmade _ hinput hdata
      have hreading' := @reading_step _ schema _ _ hdata hreading
      rw [Machine.told_cons, heard_append, heard_other c hdata, List.nil_append]
      cases hstops : input.stops with
      | true =>
        rw [hstops] at hreading'
        rw [heard_unread inputs hreading']
        exact ⟨[], List.nil_sublist _, .nil⟩
      | false =>
        rw [hstops] at hreading'
        have hreader : ((machine schema).step c input).1.reader = c.reader := by
          have hstep := @reads_step _ schema c c.reader _ hdata
          exact congrArg (fun after => after.1.reader) hstep
        have hrun := ih hmade' hrest hreading'
        rw [hreader] at hrun
        rw [arrived_other hdata hstops]
        exact hrun
    | true =>
      cases input with
      | data chunk =>
        have hmade' : Made all { c with reader := ((framing schema).feed c.reader chunk).1 } := hmade
        obtain ⟨hafter, ⟨pending, hpending⟩, read, hsub, hread⟩ :=
          @dispatchAll_heard _ schema _ ((framing schema).feed c.reader chunk).2 _ hmade'
        have happend := @Framing.feed_append _ _ _ (framing schema) c.reader chunk (arrived inputs)
        have hstep := @step_data_reading _ schema _ hreading chunk
        show ∃ read, List.Sublist read ((framing schema).feed c.reader (chunk ++ arrived inputs)).2 ∧ _
        rw [happend, Machine.told_cons, heard_append, hstep]
        dsimp only
        cases hended : ((framing schema).feed c.reader chunk).1.ended with
        | none =>
          dsimp only
          have hreading' : (Connection.dispatchAll schema
              { c with reader := ((framing schema).feed c.reader chunk).1 }
              ((framing schema).feed c.reader chunk).2).1.reading = true := by
            rw [hpending]
            exact hreading
          obtain ⟨later, hlater, hreads⟩ := ih hafter hrest hreading'
          rw [hpending] at hlater
          exact ⟨read ++ later, hsub.append hlater, List.rel_append hread hreads⟩
        | some error =>
          dsimp only
          have hstopped : heard ((machine schema).told ((Connection.dispatchAll schema
              { c with reader := ((framing schema).feed c.reader chunk).1 }
              ((framing schema).feed c.reader chunk).2).1.stopReading (M := M) (.protocol error)).1
              inputs) = [] := heard_unread inputs rfl
          rw [hstopped, heard_append]
          unfold Connection.stopReading
          rw [heard_fail, List.append_nil, List.append_nil]
          exact ⟨read, hsub.trans (List.sublist_append_left _ _), hread⟩
      | _ => cases hdata

/-- **Only what is framed is acted upon.** Whatever bytes arrive and however they are cut, each message
that the connection hands on is that of a frame of its own, in the order of the stream, and one that goes
to a request carries an id the request was made under. -/
theorem told_framed (inputs : List Input) :
    ∃ frames envelopes rest read, List.Forall₂ (framing schema).IsFrame frames envelopes ∧
      arrived inputs = frames.flatten ++ rest ∧ read.Sublist envelopes ∧
      List.Forall₂ (Heard schema inputs) read (heard ((machine schema).told {} inputs)) := by
  obtain ⟨frames, taken, hframes, -, heq⟩ := @Framing.feed_framed _ _ _ (framing schema) (arrived inputs)
  have hmade : Made inputs {} := by
    intro id future hget
    cases hget
  obtain ⟨read, hsub, hread⟩ := @told_heard _ schema inputs inputs {} hmade (fun _ h => h) rfl
  exact ⟨frames, _, taken ++ _, read, hframes, by rw [← List.append_assoc, ← heq], hsub, hread⟩

/-! ## Cuts -/

/-- Messages are dispatched batch by batch. -/
theorem dispatchAll_append (first second : List Envelope) (c : Connection) :
    c.dispatchAll schema (first ++ second) =
      let dispatched := c.dispatchAll schema first
      let rest := dispatched.1.dispatchAll schema second
      (rest.1, dispatched.2 ++ rest.2) := by
  induction first generalizing c with
  | nil => rfl
  | cons envelope first ih =>
    rw [List.cons_append, Connection.dispatchAll, ih, Connection.dispatchAll]
    dsimp only
    rw [List.append_assoc]

/-- Dispatching does not touch what the reader holds. -/
theorem reads_dispatch (c : Connection) (reader : Framing.Reader UInt8 String) (envelope : Envelope) :
    (c.reads reader).dispatch schema envelope =
      ((c.dispatch schema envelope).1.reads reader, (c.dispatch schema envelope).2) := by
  unfold Connection.dispatch
  have hsame : (c.reads reader).connected = c.connected := rfl
  rw [hsame]
  split
  · rfl
  split
  · rfl
  split
  · rfl
  · exact c.reads_give reader _ _

/-- Nor does dispatching a batch. -/
theorem reads_dispatchAll (envelopes : List Envelope) (c : Connection)
    (reader : Framing.Reader UInt8 String) :
    (c.reads reader).dispatchAll schema envelopes =
      ((c.dispatchAll schema envelopes).1.reads reader, (c.dispatchAll schema envelopes).2) := by
  induction envelopes generalizing c with
  | nil => rfl
  | cons envelope envelopes ih =>
    rw [Connection.dispatchAll, reads_dispatch]
    dsimp only
    rw [ih]
    rfl

/-- Nor does it end the reading. -/
theorem reading_dispatchAll (envelopes : List Envelope) (c : Connection) :
    (c.dispatchAll schema envelopes).1.reading = c.reading := by
  induction envelopes generalizing c with
  | nil => rfl
  | cons envelope envelopes ih =>
    obtain ⟨pending, told, hdispatch, -⟩ := @dispatch_handed _ schema c envelope
    rw [Connection.dispatchAll, hdispatch]
    exact ih _

/-- Connections that read no more tell the same, whatever their readers. -/
theorem told_reads (inputs : List Input) {c : Connection} (hreading : c.reading = false)
    (first second : Framing.Reader UInt8 String) :
    (machine schema).told (c.reads first) inputs = (machine schema).told (c.reads second) inputs := by
  have hfirst := @told_unread _ schema inputs (c.reads first) c rfl hreading
  have hsecond := @told_unread _ schema inputs (c.reads second) c rfl hreading
  rw [hfirst, hsecond]

section Fed

variable {c : Connection} {chunk : List UInt8} {reader : Framing.Reader UInt8 String}
  {envelopes : List Envelope}

/-- A chunk that is read without an error. -/
theorem step_live (hreading : c.reading = true)
    (hfed : (framing schema).feed c.reader chunk = (reader, envelopes)) (hended : reader.ended = none) :
    (machine schema).step c (.data chunk) =
      ((c.dispatchAll schema envelopes).1.reads reader, (c.dispatchAll schema envelopes).2) := by
  rw [step_data_reading hreading, hfed]
  dsimp only
  rw [hended]
  exact reads_dispatchAll envelopes c reader

/-- A chunk that ends the connection. -/
theorem step_ended (hreading : c.reading = true)
    (hfed : (framing schema).feed c.reader chunk = (reader, envelopes)) {error : String}
    (hended : reader.ended = some error) :
    (machine schema).step c (.data chunk) =
      let stopped := (c.dispatchAll schema envelopes).1.stopReading (.protocol error)
      (stopped.1.reads reader, (c.dispatchAll schema envelopes).2 ++ stopped.2) := by
  have hdispatch := @reads_dispatchAll _ schema envelopes c reader
  unfold Connection.reads at hdispatch
  rw [step_data_reading hreading, hfed]
  dsimp only
  rw [hended, hdispatch]
  rfl

/-- Once the reading ended, bytes do nothing. -/
theorem step_unread (hreading : c.reading = false) (chunk : List UInt8) :
    (machine schema).step c (.data chunk) = (c, []) := by
  show (if c.reading then _ else _) = _
  rw [hreading]
  rfl

end Fed

/-- Bytes that come in one piece or in two tell the same. -/
theorem told_data_append (c : Connection) (first second : List UInt8) (inputs : List Input) :
    (machine schema).told c (.data (first ++ second) :: inputs) =
      (machine schema).told c (.data first :: .data second :: inputs) := by
  rw [Machine.told_cons, Machine.told_cons, Machine.told_cons]
  cases hreading : c.reading with
  | false =>
    rw [step_unread hreading, step_unread hreading]
    dsimp only
    rw [step_unread hreading]
    rfl
  | true =>
    have happend := @Framing.feed_append _ _ _ (framing schema) c.reader first second
    cases hfirst : (framing schema).feed c.reader first with
    | mk reader envelopes =>
      have hreads := @reading_dispatchAll _ schema envelopes c
      rw [hreading] at hreads
      rw [hfirst] at happend
      dsimp only at happend
      cases hended : reader.ended with
      | some error =>
        -- the reader is at its end with the first chunk, and the second is not read
        have hlost : reader.ended.isSome = true := by rw [hended]; rfl
        rw [Framing.feed_ended hlost, List.append_nil] at happend
        rw [step_ended hreading happend hended, step_ended hreading hfirst hended]
        dsimp only
        rw [step_unread rfl]
        exact congrArg _ (told_reads inputs rfl _ _)
      | none =>
        rw [step_live hreading hfirst hended]
        generalize hdispatched : c.dispatchAll schema envelopes = dispatched at hreads
        cases hsecond : (framing schema).feed reader second with
        | mk reader' envelopes' =>
          rw [hsecond] at happend
          dsimp only at happend
          have hboth := @dispatchAll_append _ schema envelopes envelopes' c
          rw [hdispatched] at hboth
          dsimp only at hboth
          have hreads' : (dispatched.1.reads reader).reading = true := hreads
          have hsecond' : (framing schema).feed (dispatched.1.reads reader).reader second =
              (reader', envelopes') := hsecond
          cases hended' : reader'.ended with
          | none =>
            rw [step_live hreading happend hended', step_live hreads' hsecond' hended', hboth,
              reads_dispatchAll]
            dsimp only
            rw [List.append_assoc]
            rfl
          | some error =>
            rw [step_ended hreading happend hended', step_ended hreads' hsecond' hended', hboth,
              reads_dispatchAll]
            dsimp only
            rw [List.append_assoc, List.append_assoc, List.append_assoc]
            rfl

/-- **Where the stream is cut does not matter**: the connection does the same, whether bytes reach it in
one chunk or in two. -/
theorem told_cut (before after : List Input) (first second : List UInt8) :
    (machine schema).told {} (before ++ .data (first ++ second) :: after) =
      (machine schema).told {} (before ++ .data first :: .data second :: after) := by
  rw [Machine.told_append, Machine.told_append, told_data_append]

end Wire

end NautilusCtrader
