import NautilusCtrader.Wire.Codec
import Mathlib.Data.List.Forall2

/-!
# What the read loop makes of a stream

Frames that `encode_frame` wrote are read back as the messages they were written from, however the bytes
arrive and whatever happens to the connection between two chunks: the connection does what one would do
that was given the messages whole (`told_sent`). Of any other bytes, only what is framed is acted upon, in
the order of the stream (`told_framed`).
-/

namespace NautilusCtrader

open Common

namespace Wire

variable {M : Type} {schema : Schema M}

/-! ## Lengths -/

/-- **A length is read as it was written.** -/
theorem unpackLength_packLength {n : ℕ} {bytes : List UInt8} (h : packLength n = some bytes) :
    bytes.length = lengthPrefixBytes ∧ unpackLength bytes = n := by
  unfold packLength at h
  split at h
  · obtain rfl := Option.some.inj h
    refine ⟨rfl, ?_⟩
    simp only [unpackLength, List.foldl_cons, List.foldl_nil, UInt8.toNat_ofNat']
    omega
  · cases h

/-- A length that is packed is read back, up to the bound. -/
theorem decodeLength_packLength {n : ℕ} {bytes : List UInt8} (h : packLength n = some bytes)
    (hmax : n ≤ maxFrameBytes) : decodeLength bytes = .ok n := by
  obtain ⟨hlength, hunpack⟩ := unpackLength_packLength h
  unfold decodeLength
  rw [if_neg (not_not.mpr hlength)]
  dsimp only
  rw [hunpack, if_neg (Nat.not_lt.mpr hmax)]

/-! ## Messages as they are sent -/

/-- A message with the id it is sent under. -/
structure Sent (M : Type) where
  payload : Payload M
  clientMsgId : Option String := none
deriving DecidableEq, Repr

/-- The envelope of a message whose payload serialises to `body`. -/
def Sent.envelope (schema : Schema M) (m : Sent M) (body : List UInt8) : Envelope :=
  { payloadType := schema.payloadType m.payload, payload := some body, clientMsgId := m.clientMsgId }

/-- The library parses what it serialised of the message, in an envelope of a size that is read. -/
structure Schema.Keeps (schema : Schema M) (m : Sent M) : Prop where
  envelope : ∀ body, schema.serialize m.payload = .ok body →
    schema.parseEnvelope (schema.serializeEnvelope (m.envelope schema body)) =
      some ⟨some (schema.payloadType m.payload), some body, m.clientMsgId⟩
  payload : ∀ body, schema.serialize m.payload = .ok body →
    ∃ parse, schema.registry (schema.payloadType m.payload) = some parse ∧
      parse body = some m.payload
  size : ∀ body, schema.serialize m.payload = .ok body →
    (schema.serializeEnvelope (m.envelope schema body)).length ≤ maxFrameBytes

/-- `bytes` is the frame a message is sent in. -/
def Sent.Framed (schema : Schema M) (m : Sent M) (bytes : List UInt8) : Prop :=
  encodeFrame schema m.payload m.clientMsgId = .ok bytes

/-- A frame that was written is a frame to read, of the message's envelope. -/
theorem isFrame_of_framed {m : Sent M} {bytes : List UInt8} (hframed : m.Framed schema bytes)
    (hkeeps : schema.Keeps m) :
    ∃ body, schema.serialize m.payload = .ok body ∧
      (framing schema).IsFrame bytes (m.envelope schema body) := by
  unfold Sent.Framed encodeFrame encodeEnvelope at hframed
  cases hbody : schema.serialize m.payload with
  | error missing =>
    rw [hbody] at hframed
    cases hframed
  | ok body =>
    rw [hbody] at hframed
    dsimp only at hframed
    cases hhead : packLength (schema.serializeEnvelope (m.envelope schema body)).length with
    | none =>
      unfold Sent.envelope at hhead
      rw [hhead] at hframed
      cases hframed
    | some head =>
      refine ⟨body, rfl, head, schema.serializeEnvelope (m.envelope schema body), ?_,
        (unpackLength_packLength hhead).1, decodeLength_packLength hhead (hkeeps.size body hbody), ?_⟩
      · unfold Sent.envelope at hhead ⊢
        rw [hhead] at hframed
        exact (Except.ok.inj hframed).symm
      · show decodeEnvelope schema _ = _
        unfold decodeEnvelope
        rw [hkeeps.envelope body hbody]
        rfl

/-! ## A connection that is given messages -/

/-- What happens to a connection whose peer's messages arrive whole. -/
inductive Delivery (M : Type)
  | arrives (m : Sent M)
  | other (input : Input)

/-- A message is given to the request it answers or to the event handler, unless the connection is lost
or it is a heartbeat. -/
def Connection.deliver (schema : Schema M) (c : Connection) (m : Sent M) :
    Connection × List (Told M) :=
  if !c.connected then (c, [])
  else if schema.payloadType m.payload = heartbeatEvent then (c, [])
  else c.give (m.clientMsgId.getD "") m.payload

/-- The connection, given its peer's messages whole. -/
def messages (schema : Schema M) : Machine Connection (Delivery M) (Told M) where
  step c
    | .arrives m => c.deliver schema m
    | .other input => (machine schema).step c input

def Input.isData : Input → Bool
  | .data _ => true
  | _ => false

/-- The bytes that reach the read loop. -/
def arrived : List Input → List UInt8
  | [] => []
  | .data chunk :: rest => chunk ++ arrived rest
  | .endOfStream :: _ | .readFails _ :: _ | .beginClose :: _ => []
  | _ :: rest => arrived rest

/-! ## The same but for the reader -/

/-- The connection with another reader. -/
def Connection.reads (c : Connection) (reader : Framing.Reader UInt8 String) : Connection :=
  { c with reader }

section Reads

variable (c : Connection) (reader : Framing.Reader UInt8 String)

/-- Giving a message to its future does not touch what the reader holds. -/
theorem Connection.reads_give (clientMsgId : String) (payload : Payload M) :
    (c.reads reader).give clientMsgId payload =
      ((c.give clientMsgId payload).1.reads reader, (c.give clientMsgId payload).2) := by
  unfold Connection.give
  by_cases hid : clientMsgId = ""
  · rw [if_pos hid, if_pos hid]
  · cases hget : c.pending.get? clientMsgId with
    | none => simp [Connection.reads, hid, hget]
    | some future =>
      obtain ⟨request, done⟩ := future
      cases done <;> simp [Connection.reads, hid, hget]

/-- Nor does delivering one. -/
theorem Connection.reads_deliver (m : Sent M) :
    (c.reads reader).deliver schema m =
      ((c.deliver schema m).1.reads reader, (c.deliver schema m).2) := by
  unfold Connection.deliver
  have hsame : (c.reads reader).connected = c.connected := rfl
  rw [hsame]
  split
  · rfl
  · split
    · rfl
    · exact c.reads_give reader _ _

/-- What happens to a connection, data apart, does not ask for its reader. -/
theorem reads_step {input : Input} (hdata : input.isData = false) :
    (machine schema).step (c.reads reader) input =
      (((machine schema).step c input).1.reads reader, ((machine schema).step c input).2) := by
  cases input with
  | data chunk => cases hdata
  | endOfStream | readFails detail =>
    cases hreading : c.reading <;> simp [machine, Connection.reads, Connection.stopReading,
      Connection.fail, Connection.rejectPending, hreading]
  | silence secs =>
    cases hconnected : c.connected <;> simp [machine, Connection.reads, Connection.fail,
      Connection.rejectPending, hconnected]
  | beginClose => rfl
  | request clientMsgId request =>
    cases hconnected : c.connected <;> simp [machine, Connection.reads, hconnected]
  | abandoned clientMsgId => rfl
  | forgotten clientMsgId => rfl

end Reads

/-! ## Reading what was sent -/

/-- The envelope of a message is dispatched as the message is delivered. -/
theorem dispatch_envelope {m : Sent M} (hkeeps : schema.Keeps m) {body : List UInt8}
    (hbody : schema.serialize m.payload = .ok body) (c : Connection) :
    c.dispatch schema (m.envelope schema body) = c.deliver schema m := by
  obtain ⟨parse, hregistry, hparse⟩ := hkeeps.payload body hbody
  have hpayload : parsePayload schema (m.envelope schema body) = .ok m.payload := by
    unfold parsePayload Sent.envelope
    dsimp only
    rw [hregistry]
    dsimp only [Option.getD_some]
    rw [hparse]
  unfold Connection.dispatch Connection.deliver
  rw [hpayload]
  rfl

/-- The messages whose envelopes these are. -/
def Enveloped (schema : Schema M) (m : Sent M) (envelope : Envelope) : Prop :=
  ∃ body, schema.serialize m.payload = .ok body ∧ envelope = m.envelope schema body

/-- Dispatching the envelopes of messages delivers the messages in order. -/
theorem dispatchAll_envelopes {sent : List (Sent M)} {envelopes : List Envelope}
    (h : List.Forall₂ (Enveloped schema) sent envelopes) (hkeeps : ∀ m ∈ sent, schema.Keeps m)
    (c : Connection) :
    c.dispatchAll schema envelopes =
      ((messages schema).after c (sent.map .arrives), (messages schema).told c (sent.map .arrives)) := by
  induction h generalizing c with
  | nil => rfl
  | cons hm _ ih =>
    obtain ⟨body, hbody, rfl⟩ := hm
    rw [Connection.dispatchAll, dispatch_envelope (hkeeps _ List.mem_cons_self) hbody,
      ih fun m hm => hkeeps m (List.mem_cons_of_mem _ hm)]
    rfl

/-- A message and the frame it is sent in, of which the library keeps what it was given. -/
def Written (schema : Schema M) (item : Sent M × List UInt8) : Prop :=
  item.1.Framed schema item.2 ∧ schema.Keeps item.1

/-- The bytes of a stream of messages. -/
def bytesOf (stream : List (Sent M × List UInt8)) : List UInt8 := (stream.map Prod.snd).flatten

/-- What is written of messages is frames of their envelopes. -/
theorem isFrames_of_written {stream : List (Sent M × List UInt8)}
    (h : ∀ item ∈ stream, Written schema item) :
    ∃ envelopes, List.Forall₂ (Enveloped schema) (stream.map Prod.fst) envelopes ∧
      List.Forall₂ (framing schema).IsFrame (stream.map Prod.snd) envelopes := by
  induction stream with
  | nil => exact ⟨[], .nil, .nil⟩
  | cons item stream ih =>
    obtain ⟨hframed, hkeeps⟩ := h item List.mem_cons_self
    obtain ⟨body, hbody, hframe⟩ := isFrame_of_framed hframed hkeeps
    obtain ⟨envelopes, henveloped, hframes⟩ := ih fun other hother =>
      h other (List.mem_cons_of_mem _ hother)
    exact ⟨_, .cons ⟨body, hbody, rfl⟩ henveloped, .cons hframe hframes⟩

/-- Less than the first frame of a stream. -/
def Short (stream : List (Sent M × List UInt8)) (part : List UInt8) : Prop :=
  part <+: bytesOf stream ∧ ∀ item ∈ stream.head?, part.length < item.2.length

/-- What begins a stream is whole frames, and less than the next. -/
theorem split_stream {stream : List (Sent M × List UInt8)} {bytes : List UInt8}
    (h : bytes <+: bytesOf stream) :
    ∃ whole rest part, stream = whole ++ rest ∧ bytes = bytesOf whole ++ part ∧ Short rest part := by
  induction stream generalizing bytes with
  | nil =>
    refine ⟨[], [], bytes, rfl, rfl, h, fun item hitem => ?_⟩
    cases hitem
  | cons item stream ih =>
    rcases Nat.lt_or_ge bytes.length item.2.length with hless | hmore
    · refine ⟨[], item :: stream, bytes, rfl, rfl, h, fun found hfound => ?_⟩
      obtain rfl := Option.some.inj hfound
      exact hless
    · have hcons : bytesOf (item :: stream) = item.2 ++ bytesOf stream := rfl
      rw [hcons] at h
      obtain ⟨rest, rfl⟩ := List.prefix_of_prefix_length_le (List.prefix_append item.2 _) h hmore
      obtain ⟨whole, left, part, rfl, rfl, hshort⟩ :=
        ih ((List.prefix_append_right_inj item.2).mp h)
      exact ⟨item :: whole, left, part, rfl, by rw [← List.append_assoc]; rfl, hshort⟩

/-- Less than a frame tells nothing, and is no error. -/
theorem feed_short {stream : List (Sent M × List UInt8)} (h : ∀ item ∈ stream, Written schema item)
    {part : List UInt8} (hshort : Short stream part) :
    ((framing schema).feed {} part).2 = [] ∧ ((framing schema).feed {} part).1.ended = none := by
  cases stream with
  | nil =>
    obtain rfl := List.prefix_nil.mp hshort.1
    exact ⟨rfl, rfl⟩
  | cons item stream =>
    have hless := hshort.2 _ rfl
    obtain ⟨hframed, hkeeps⟩ := h item List.mem_cons_self
    obtain ⟨body, -, hframe⟩ := isFrame_of_framed hframed hkeeps
    refine Framing.feed_partial hframe ?_ hless
    exact List.prefix_of_prefix_length_le hshort.1 (List.prefix_append item.2 _) (Nat.le_of_lt hless)

/-- A chunk that comes after `part` of a stream. -/
theorem feed_after {stream : List (Sent M × List UInt8)} (h : ∀ item ∈ stream, Written schema item)
    {part chunk : List UInt8} (hshort : Short stream part) (hchunk : part ++ chunk <+: bytesOf stream) :
    ∃ whole rest part' envelopes, stream = whole ++ rest ∧ part ++ chunk = bytesOf whole ++ part' ∧
      Short rest part' ∧ List.Forall₂ (Enveloped schema) (whole.map Prod.fst) envelopes ∧
      (framing schema).feed ((framing schema).feed {} part).1 chunk =
        (((framing schema).feed {} part').1, envelopes) := by
  obtain ⟨whole, rest, part', rfl, hsplit, hshort'⟩ := split_stream hchunk
  obtain ⟨envelopes, henveloped, hframes⟩ := isFrames_of_written fun item hitem =>
    h item (List.mem_append_left _ hitem)
  refine ⟨whole, rest, part', envelopes, rfl, hsplit, hshort', henveloped, ?_⟩
  have happend := @Framing.feed_append _ _ _ (framing schema) {} part chunk
  rw [hsplit, bytesOf, Framing.feed_frames hframes,
    (feed_short (fun item hitem => h item (List.mem_append_right _ hitem)) hshort').1,
    List.append_nil] at happend
  dsimp only at happend
  rw [(feed_short h hshort).1, List.nil_append] at happend
  exact happend.symm

/-! ## Whole runs -/

/-- `c` reads its stream and has `part` of a frame, and is otherwise as `d`, which is given the messages
whole. -/
structure Reads (schema : Schema M) (c d : Connection) (part : List UInt8) : Prop where
  same : d.reads c.reader = c
  reading : c.reading = true
  reader : c.reader = ((framing schema).feed {} part).1

/-- The inputs that bring no bytes, one input at a time. -/
theorem filter_data_cons (input : Input) (inputs : List Input) :
    (input :: inputs).filter (fun i => !i.isData) =
      (if input.isData then [] else [input]) ++ inputs.filter fun i => !i.isData := by
  rw [List.filter_cons]
  cases input.isData <;> rfl

/-- A connection that has stopped reading does not begin again. -/
theorem unread_step {c : Connection} (hreading : c.reading = false) (input : Input) :
    ((machine schema).step c input).1.reading = false := by
  cases input with
  | data chunk =>
    show (if c.reading then _ else (c, [])).1.reading = false
    rw [hreading]
    exact hreading
  | endOfStream | readFails detail =>
    show (if c.reading then _ else (c, [])).1.reading = false
    rw [hreading]
    exact hreading
  | silence secs =>
    show (if c.connected then _ else (c, [])).1.reading = false
    cases c.connected <;> exact hreading
  | beginClose => rfl
  | request clientMsgId request =>
    show (if c.connected then _ else (c, [])).1.reading = false
    cases c.connected <;> exact hreading
  | abandoned clientMsgId => exact hreading
  | forgotten clientMsgId => exact hreading

/-- A connection that reads no more is left what does not come from its stream. -/
theorem told_unread (inputs : List Input) {c d : Connection} (hsame : d.reads c.reader = c)
    (hreading : c.reading = false) :
    (machine schema).told c inputs =
      (messages schema).told d ((inputs.filter fun i => !i.isData).map .other) := by
  induction inputs generalizing c d with
  | nil => rfl
  | cons input inputs ih =>
    cases hdata : input.isData with
    | true =>
      cases input with
      | data chunk =>
        have hstep : (machine schema).step c (.data chunk) = (c, []) := by
          show (if c.reading then _ else _) = _
          rw [hreading]
          rfl
        rw [Machine.told_cons, hstep, filter_data_cons, hdata]
        exact ih hsame hreading
      | _ => cases hdata
    | false =>
      have hstep := @reads_step _ schema d c.reader _ hdata
      have hreading' := @unread_step _ schema _ hreading input
      rw [hsame] at hstep
      rw [hstep] at hreading'
      rw [Machine.told_cons, filter_data_cons, hdata, hstep]
      have hrest := ih rfl hreading'
      show _ ++ _ = ((machine schema).step d input).2 ++ _
      rw [hrest]
      rfl

/-- Giving a message to its future does not end the reading. -/
theorem Connection.reading_give (c : Connection) (clientMsgId : String) (payload : Payload M) :
    (c.give clientMsgId payload).1.reading = c.reading := by
  unfold Connection.give
  split
  · rfl
  · dsimp only
    split <;> rfl

/-- Nor does delivering one. -/
theorem Connection.reading_deliver (c : Connection) (m : Sent M) :
    (c.deliver schema m).1.reading = c.reading := by
  unfold Connection.deliver
  split
  · rfl
  · split
    · rfl
    · exact c.reading_give _ _

/-- Messages are given alike to connections that are the same but for the reader. -/
theorem messages_reads (sent : List (Sent M)) (d : Connection) (reader : Framing.Reader UInt8 String) :
    (messages schema).after (d.reads reader) (sent.map .arrives) =
        ((messages schema).after d (sent.map .arrives)).reads reader ∧
      (messages schema).told (d.reads reader) (sent.map .arrives) =
        (messages schema).told d (sent.map .arrives) ∧
      ((messages schema).after d (sent.map .arrives)).reading = d.reading := by
  induction sent generalizing d with
  | nil => exact ⟨rfl, rfl, rfl⟩
  | cons m sent ih =>
    have hstep : (messages schema).step (d.reads reader) (.arrives m) =
        ((d.deliver schema m).1.reads reader, (d.deliver schema m).2) := d.reads_deliver reader m
    obtain ⟨hafter, htold, hreading⟩ := ih (d.deliver schema m).1
    rw [List.map_cons, Machine.after_cons, Machine.told_cons, hstep]
    refine ⟨hafter, ?_, ?_⟩
    · rw [htold]
      rfl
    · exact hreading.trans (d.reading_deliver m)

/-- A chunk gives the connection the messages it completes. -/
theorem step_data {stream : List (Sent M × List UInt8)} (h : ∀ item ∈ stream, Written schema item)
    {c d : Connection} {part chunk : List UInt8} (hreads : Reads schema c d part)
    (hshort : Short stream part) (hchunk : part ++ chunk <+: bytesOf stream) :
    ∃ whole rest part', stream = whole ++ rest ∧ part ++ chunk = bytesOf whole ++ part' ∧
      Short rest part' ∧
      Reads schema ((machine schema).step c (.data chunk)).1
        ((messages schema).after d ((whole.map Prod.fst).map .arrives)) part' ∧
      ((machine schema).step c (.data chunk)).2 =
        (messages schema).told d ((whole.map Prod.fst).map .arrives) := by
  obtain ⟨whole, rest, part', envelopes, rfl, hsplit, hshort', henveloped, hfeed⟩ :=
    feed_after h hshort hchunk
  refine ⟨whole, rest, part', rfl, hsplit, hshort', ?_⟩
  have hkeeps : ∀ m ∈ whole.map Prod.fst, schema.Keeps m := by
    intro m hm
    obtain ⟨item, hitem, rfl⟩ := List.mem_map.mp hm
    exact (h item (List.mem_append_left _ hitem)).2
  have hended : ((framing schema).feed {} part').1.ended = none :=
    (feed_short (fun item hitem => h item (List.mem_append_right _ hitem)) hshort').2
  obtain ⟨hafter, htold, hreading⟩ :=
    @messages_reads _ schema (whole.map Prod.fst) d ((framing schema).feed {} part').1
  have hstep : (machine schema).step c (.data chunk) =
      (((messages schema).after d ((whole.map Prod.fst).map .arrives)).reads
          ((framing schema).feed {} part').1,
        (messages schema).told d ((whole.map Prod.fst).map .arrives)) := by
    show c.data schema chunk = _
    have hreader : { c with reader := ((framing schema).feed {} part').1 } =
        d.reads ((framing schema).feed {} part').1 := by
      rw [← hreads.same]
      rfl
    unfold Connection.data
    rw [if_pos hreads.reading, hreads.reader, hfeed]
    dsimp only
    rw [hended, hreader, dispatchAll_envelopes henveloped hkeeps, hafter, htold]
  rw [hstep]
  refine ⟨⟨rfl, ?_, rfl⟩, rfl⟩
  have hsame : (d.reads c.reader).reading = c.reading := congrArg Connection.reading hreads.same
  exact hreading.trans (hsame.trans hreads.reading)

/-- Whether an input ends the reading. -/
def Input.stops : Input → Bool
  | .endOfStream | .readFails _ | .beginClose => true
  | _ => false

/-- Only an input that stops the reading ends it. -/
theorem reading_step {c : Connection} {input : Input} (hdata : input.isData = false)
    (hreading : c.reading = true) :
    ((machine schema).step c input).1.reading = !input.stops := by
  cases input with
  | data chunk => cases hdata
  | endOfStream | readFails detail =>
    show (if c.reading then _ else (c, [])).1.reading = false
    rw [hreading]
    rfl
  | silence secs =>
    show (if c.connected then _ else (c, [])).1.reading = true
    cases c.connected <;> exact hreading
  | beginClose => rfl
  | request clientMsgId request =>
    show (if c.connected then _ else (c, [])).1.reading = true
    cases c.connected <;> exact hreading
  | abandoned clientMsgId => exact hreading
  | forgotten clientMsgId => exact hreading

/-- An input without bytes leaves what arrived. -/
theorem arrived_other {input : Input} (hdata : input.isData = false) (hstops : input.stops = false)
    (inputs : List Input) : arrived (input :: inputs) = arrived inputs := by
  cases input with
  | data chunk => cases hdata
  | endOfStream | readFails detail | beginClose => cases hstops
  | _ => rfl

/-- The messages of a stream whose frames `n` bytes complete, the rest of the stream, and the bytes that
are left of the next frame. -/
def complete : List (Sent M × List UInt8) → ℕ → List (Sent M) × List (Sent M × List UInt8) × ℕ
  | [], n => ([], [], n)
  | item :: stream, n =>
    if item.2.length ≤ n then
      let others := complete stream (n - item.2.length)
      (item.1 :: others.1, others.2)
    else ([], item :: stream, n)

/-- Each message of a stream arrives with its last byte, and everything else happens in its place; `n`
bytes of the stream's first frame came before. -/
def deliveries : List (Sent M × List UInt8) → ℕ → List Input → List (Delivery M)
  | _, _, [] => []
  | stream, n, .data chunk :: inputs =>
    let completed := complete stream (n + chunk.length)
    completed.1.map .arrives ++ deliveries completed.2.1 completed.2.2 inputs
  | stream, n, input :: inputs =>
    .other input ::
      if input.stops then (inputs.filter fun i => !i.isData).map .other
      else deliveries stream n inputs

/-- An input without bytes is delivered as itself, and after a stop no message is. -/
theorem deliveries_other {input : Input} (hdata : input.isData = false)
    (stream : List (Sent M × List UInt8)) (n : ℕ) (inputs : List Input) :
    deliveries stream n (input :: inputs) =
      .other input ::
        if input.stops then (inputs.filter fun i => !i.isData).map .other
        else deliveries stream n inputs := by
  cases input with
  | data chunk => cases hdata
  | _ => rfl

/-- Bytes that end within a message complete the messages before it. -/
theorem complete_whole (whole : List (Sent M × List UInt8)) {rest : List (Sent M × List UInt8)}
    {part : List UInt8} (hshort : Short rest part) :
    complete (whole ++ rest) (bytesOf whole ++ part).length = (whole.map Prod.fst, rest, part.length) := by
  induction whole with
  | nil =>
    cases rest with
    | nil => rfl
    | cons item rest => exact if_neg (Nat.not_le.mpr (hshort.2 _ rfl))
  | cons item whole ih =>
    have hlength : (bytesOf (item :: whole) ++ part).length =
        item.2.length + (bytesOf whole ++ part).length := by
      simp only [bytesOf, List.map_cons, List.flatten_cons, List.length_append]
      omega
    rw [hlength, List.cons_append, complete, if_pos (Nat.le_add_right _ _), Nat.add_sub_cancel_left, ih]
    rfl

/-- A run on a stream of messages, from a connection that has `part` of a frame. -/
theorem told_run (inputs : List Input) {stream : List (Sent M × List UInt8)}
    (h : ∀ item ∈ stream, Written schema item) {c d : Connection} {part : List UInt8}
    (hreads : Reads schema c d part) (hshort : Short stream part)
    (harrived : part ++ arrived inputs <+: bytesOf stream) :
    (machine schema).told c inputs = (messages schema).told d (deliveries stream part.length inputs) := by
  -- on the inputs; `part` is what has come of the next frame
  induction inputs generalizing stream c d part with
  | nil => rfl
  | cons input inputs ih =>
    cases hdata : input.isData with
    | true =>
      cases input with
      | data chunk =>
        -- the chunk completes some messages and leaves a part of the next
        have hchunk : part ++ chunk ++ arrived inputs <+: bytesOf stream := by
          rw [List.append_assoc]
          exact harrived
        obtain ⟨whole, rest, part', rfl, hsplit, hshort', hreads', htold⟩ :=
          step_data h hreads hshort ((List.prefix_append _ _).trans hchunk)
        have hbytes : bytesOf (whole ++ rest) = bytesOf whole ++ bytesOf rest := by
          simp only [bytesOf, List.map_append, List.flatten_append]
        rw [hsplit, hbytes, List.append_assoc, List.prefix_append_right_inj] at hchunk
        have hrest := ih (fun item hitem => h item (List.mem_append_right _ hitem)) hreads' hshort' hchunk
        have hcomplete : complete (whole ++ rest) (part.length + chunk.length) =
            (whole.map Prod.fst, rest, part'.length) := by
          rw [← List.length_append, hsplit]
          exact complete_whole whole hshort'
        rw [Machine.told_cons, htold, hrest, deliveries, hcomplete, Machine.told_append]
      | _ => cases hdata
    | false =>
      have hstep := @reads_step _ schema d c.reader _ hdata
      rw [hreads.same] at hstep
      have hreading := @reading_step _ schema _ _ hdata hreads.reading
      have hafter : ((machine schema).step d input).1.reads ((machine schema).step c input).1.reader =
          ((machine schema).step c input).1 := by
        rw [hstep]
        rfl
      have hfirst : ((machine schema).step c input).2 = ((messages schema).step d (.other input)).2 := by
        rw [hstep]
        rfl
      rw [deliveries_other hdata, Machine.told_cons, Machine.told_cons, hfirst]
      cases hstops : input.stops with
      | true =>
        rw [hstops] at hreading
        rw [told_unread inputs hafter hreading]
        rfl
      | false =>
        rw [hstops] at hreading
        rw [arrived_other hdata hstops] at harrived
        have hreader : ((machine schema).step c input).1.reader = ((framing schema).feed {} part).1 := by
          rw [hstep]
          exact hreads.reader
        rw [ih h ⟨hafter, hreading, hreader⟩ hshort harrived]
        rfl

/-- **A connection does with the bytes of its peer's messages what one does that is given the messages
whole**, each with its last byte: however the bytes are cut, and whatever else happens meanwhile. -/
theorem told_sent {stream : List (Sent M × List UInt8)} (h : ∀ item ∈ stream, Written schema item)
    {inputs : List Input} (harrived : arrived inputs <+: bytesOf stream) :
    (machine schema).told {} inputs = (messages schema).told {} (deliveries stream 0 inputs) := by
  have hshort : Short stream [] := by
    refine ⟨List.nil_prefix, fun item hitem => ?_⟩
    cases stream with
    | nil => cases hitem
    | cons first stream =>
      obtain rfl := Option.some.inj hitem
      obtain ⟨hframed, hkeeps⟩ := h _ List.mem_cons_self
      obtain ⟨body, -, head, bytes, heq, hwidth, -⟩ := isFrame_of_framed hframed hkeeps
      have hpos := (framing schema).width_pos
      rw [heq, List.length_append, List.length_nil]
      omega
  exact told_run inputs h ⟨rfl, rfl, rfl⟩ hshort harrived

/-! ## One message -/

/-- An error that answers the request under the id `7`. -/
def refusal : Sent Unit := ⟨.errorRes { errorCode := "X" }, some "7"⟩

/-- The library, of this message alone. -/
def refusalSchema : Schema Unit where
  payloadType
    | .oaErrorRes _ => 2142
    | .errorRes _ => 50
    | .message _ => heartbeatEvent
  serialize payload := if payload = refusal.payload then .ok [18, 1, 88] else .error "another message"
  serializeEnvelope envelope :=
    if envelope = ⟨50, some [18, 1, 88], some "7"⟩ then [8, 50, 18, 3, 18, 1, 88, 26, 1, 55] else []
  parseEnvelope bytes :=
    if bytes = [8, 50, 18, 3, 18, 1, 88, 26, 1, 55] then some ⟨some 50, some [18, 1, 88], some "7"⟩
    else none
  registry payloadType :=
    if payloadType = 50 then
      some fun body => if body = [18, 1, 88] then some refusal.payload else none
    else none

/-- The schema of the example keeps its message. -/
theorem refusalSchema_keeps : refusalSchema.Keeps refusal := by
  have hbody {body : List UInt8} (h : refusalSchema.serialize refusal.payload = .ok body) :
      body = [18, 1, 88] := (Except.ok.inj h).symm
  refine ⟨fun body h => ?_, fun body h => ?_, fun body h => ?_⟩
  · obtain rfl := hbody h
    rfl
  · obtain rfl := hbody h
    exact ⟨_, rfl, rfl⟩
  · obtain rfl := hbody h
    decide

/-- The error is the result of its request, though its frame comes in two chunks. -/
theorem told_sent_refusal :
    (machine refusalSchema).told {}
      [.request "7" 0, .data [0, 0, 0, 10, 8, 50], .silence "60", .data [18, 3, 18, 1, 88, 26, 1, 55]] =
      [.result 0 (.lost (.connection "no inbound data for 60s")),
        .disconnected (.connection "no inbound data for 60s")] ∧
    (machine refusalSchema).told {}
      [.request "7" 0, .data [0, 0, 0, 10, 8, 50], .data [18, 3, 18, 1, 88, 26, 1, 55]] =
      [.result 0 (.error ⟨"X", none, none, none⟩)] := by
  have hwritten : ∀ item ∈ [(refusal, [0, 0, 0, 10, 8, 50, 18, 3, 18, 1, 88, 26, 1, 55])],
      Written refusalSchema item := by
    intro item hitem
    obtain rfl := List.mem_singleton.mp hitem
    exact ⟨rfl, refusalSchema_keeps⟩
  exact ⟨(told_sent hwritten ⟨[], rfl⟩).trans rfl, (told_sent hwritten ⟨[], rfl⟩).trans rfl⟩

end Wire

end NautilusCtrader
