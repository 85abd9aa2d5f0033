import Mathlib.Data.Int.Notation
import NautilusCtrader.Common.Dict
import NautilusCtrader.Common.Framing
import NautilusCtrader.Common.Machine

/-!
# Messages on the wire

A message goes out in an envelope, and the envelope behind the length of its bytes. The read loop takes
the bytes as they arrive, in whatever chunks, and gives each message to the request it answers or to the
event handler. A length too great, an envelope that does not parse and a stream cut short end the
connection; a message of a type unknown does not.

How the library of the messages serialises and parses them is a parameter, `Schema`.
-/

namespace NautilusCtrader

open Common

namespace Wire

/-! ## Messages -/

structure ProtoErrorRes where
  errorCode : String
  description : Option String := none
  maintenanceEndTimestamp : Option ℕ := none
deriving DecidableEq, Repr

structure ProtoOAErrorRes where
  errorCode : String
  description : Option String := none
  maintenanceEndTimestamp : Option ℤ := none
  retryAfter : Option ℕ := none
deriving DecidableEq, Repr

/-- A payload: one of the two error messages, or any other. -/
inductive Payload (M : Type)
  | oaErrorRes (res : ProtoOAErrorRes)
  | errorRes (res : ProtoErrorRes)
  | message (m : M)
deriving DecidableEq, Repr

/-- `ProtoMessage`, as it is parsed. -/
structure ProtoMessage where
  payloadType : Option ℕ
  payload : Option (List UInt8) := none
  clientMsgId : Option String := none
deriving DecidableEq, Repr

/-- A `ProtoMessage` with its required field. -/
structure Envelope where
  payloadType : ℕ
  payload : Option (List UInt8) := none
  clientMsgId : Option String := none
deriving DecidableEq, Repr

/-- `CTraderRequestError`. -/
structure RequestError where
  errorCode : String
  description : Option String
  maintenanceEndSecs : Option ℤ
  retryAfterSecs : Option ℕ
deriving DecidableEq, Repr

/-- `text or None`, of a field that reads as empty where it is absent. -/
def orNone (text : Option String) : Option String := text.filter (· ≠ "")

/-- `as_request_error`. -/
def asRequestError {M : Type} : Payload M → Option RequestError
  | .oaErrorRes res =>
    some ⟨res.errorCode, orNone res.description, res.maintenanceEndTimestamp, res.retryAfter⟩
  | .errorRes res =>
    some ⟨res.errorCode, orNone res.description,
      res.maintenanceEndTimestamp.map fun millis => ((millis / 1000 : ℕ) : ℤ), none⟩
  | .message _ => none

/-- The library of the messages. -/
structure Schema (M : Type) where
  payloadType : Payload M → ℕ
  /-- `SerializeToString`; its error names what is missing. -/
  serialize : Payload M → Except String (List UInt8)
  serializeEnvelope : Envelope → List UInt8
  parseEnvelope : List UInt8 → Option ProtoMessage
  /-- The class of a payload type, by its `ParseFromString`. -/
  registry : ℕ → Option (List UInt8 → Option (Payload M))

/-! ## The codec -/

def lengthPrefixBytes : ℕ := 4

def maxFrameBytes : ℕ := 15000000

/-- `HEARTBEAT_EVENT`. -/
def heartbeatEvent : ℕ := 51

/-- `struct.pack("!I", n)`, which raises where four bytes do not hold `n`. -/
def packLength (n : ℕ) : Option (List UInt8) :=
  if n < 4294967296 then
    some [UInt8.ofNat (n / 16777216), UInt8.ofNat (n / 65536), UInt8.ofNat (n / 256), UInt8.ofNat n]
  else none

/-- `struct.unpack("!I", bytes)`. -/
def unpackLength (bytes : List UInt8) : ℕ := bytes.foldl (fun n byte => 256 * n + byte.toNat) 0

section Codec

variable {M : Type} (schema : Schema M)

/-- How a payload cannot be framed. -/
inductive EncodeError
  /-- `CTraderProtocolError`. -/
  | protocol (message : String)
  /-- `struct.error`. -/
  | struct
deriving DecidableEq, Repr

/-- `encode_envelope`. -/
def encodeEnvelope (payload : Payload M) (clientMsgId : Option String) :
    Except EncodeError (List UInt8) :=
  match schema.serialize payload with
  | .error missing =>
    .error (.protocol s!"cannot encode payloadType={schema.payloadType payload}: {missing}")
  | .ok body =>
    .ok (schema.serializeEnvelope
      { payloadType := schema.payloadType payload, payload := some body, clientMsgId })

/-- `encode_frame`. -/
def encodeFrame (payload : Payload M) (clientMsgId : Option String) :
    Except EncodeError (List UInt8) :=
  match encodeEnvelope schema payload clientMsgId with
  | .error error => .error error
  | .ok body =>
    match packLength body.length with
    | none => .error .struct
    | some head => .ok (head ++ body)

/-- `decode_length`. -/
def decodeLength (head : List UInt8) : Except String ℕ :=
  if head.length ≠ lengthPrefixBytes then
    .error s!"length prefix must be {lengthPrefixBytes} bytes, got {head.length}"
  else
    let length := unpackLength head
    if maxFrameBytes < length then
      .error s!"frame length {length} exceeds maximum {maxFrameBytes}"
    else .ok length

/-- `decode_envelope`. -/
def decodeEnvelope (body : List UInt8) : Except String Envelope :=
  match schema.parseEnvelope body with
  | none => .error s!"undecodable envelope of {body.length} bytes"
  | some message =>
    match message.payloadType with
    | none => .error "envelope is missing its required payloadType"
    | some payloadType => .ok ⟨payloadType, message.payload, message.clientMsgId⟩

/-- `parse_payload`; a field that is absent reads as empty. -/
def parsePayload (envelope : Envelope) : Except String (Payload M) :=
  match schema.registry envelope.payloadType with
  | none => .error s!"unknown payload type {envelope.payloadType}"
  | some parse =>
    match parse (envelope.payload.getD []) with
    | none => .error s!"undecodable payload for type {envelope.payloadType}"
    | some payload => .ok payload

/-- What the read loop reads. -/
def framing : Framing UInt8 Envelope String where
  width := lengthPrefixBytes
  width_pos := by decide
  lengthOf := decodeLength
  bodyOf := decodeEnvelope schema

end Codec

/-! ## The connection -/

/-- The error of a connection that is lost. -/
inductive LossError
  | connection (message : String)
  | protocol (message : String)
deriving DecidableEq, Repr

/-- What the future of a request is given. -/
inductive Result (M : Type)
  | response (payload : Payload M)
  | error (error : RequestError)
  | lost (error : LossError)
deriving DecidableEq, Repr

/-- A request's future; it is done once it has a result or was cancelled. -/
structure Future where
  request : ℕ
  done : Bool := false
deriving DecidableEq, Repr

/-- What the connection does with what it reads, and when it is lost. -/
inductive Told (M : Type)
  | result (request : ℕ) (result : Result M)
  /-- The event handler is called. -/
  | event (payload : Payload M)
  /-- The disconnect handler is called. -/
  | disconnected (error : LossError)
deriving DecidableEq, Repr

/-- One connection from its `connect` on. -/
structure Connection where
  connected : Bool := true
  /-- The read loop runs. -/
  reading : Bool := true
  reader : Framing.Reader UInt8 String := {}
  pending : Dict String Future := Dict.empty

/-- What happens to it. -/
inductive Input
  | data (chunk : List UInt8)
  /-- The peer closes the stream. -/
  | endOfStream
  | readFails (detail : String)
  /-- No frame has come for `_inbound_silence_secs`, so many seconds. -/
  | silence (secs : String)
  | beginClose
  /-- `_exchange` makes a request's future pending. -/
  | request (clientMsgId : String) (request : ℕ)
  /-- The request's wait is over without a result. -/
  | abandoned (clientMsgId : String)
  /-- `_exchange` ends. -/
  | forgotten (clientMsgId : String)

namespace Connection

variable {M : Type} (schema : Schema M) (c : Connection)

/-- `_reject_pending`. -/
def rejectPending (error : LossError) : Connection × List (Told M) :=
  ({ c with pending := Dict.empty },
    (c.pending.values.filter fun future => !future.done).map fun future =>
      .result future.request (.lost error))

/-- `_fail`. -/
def fail (error : LossError) : Connection × List (Told M) :=
  let rejected := { c with connected := false }.rejectPending (M := M) error
  (rejected.1, rejected.2 ++ if c.connected then [.disconnected error] else [])

/-- The end of `_dispatch`: a message goes to the request of its id, or to the event handler. -/
def give (clientMsgId : String) (payload : Payload M) : Connection × List (Told M) :=
  if clientMsgId = "" then (c, [.event payload])
  else
    let c' := { c with pending := c.pending.erase clientMsgId }
    match c.pending.get? clientMsgId with
    | some ⟨request, false⟩ =>
      (c', [.result request ((asRequestError payload).elim (.response payload) .error)])
    | _ => (c', [.event payload])

/-- `_dispatch`. -/
def dispatch (envelope : Envelope) : Connection × List (Told M) :=
  if !c.connected then (c, [])
  else if envelope.payloadType = heartbeatEvent then (c, [])
  else
    match parsePayload schema envelope with
    -- a message that is not understood is passed over
    | .error _ => (c, [])
    | .ok payload => c.give (envelope.clientMsgId.getD "") payload

/-- The envelopes of a chunk are dispatched in turn. -/
def dispatchAll : Connection → List Envelope → Connection × List (Told M)
  | c, [] => (c, [])
  | c, envelope :: rest =>
    let first := c.dispatch schema envelope
    let others := dispatchAll first.1 rest
    (others.1, first.2 ++ others.2)

/-- The wait of a request is over without a result: its future is cancelled. -/
def abandon (clientMsgId : String) : Connection :=
  { c with
    pending := (c.pending.get? clientMsgId).elim c.pending fun future =>
      c.pending.set clientMsgId { future with done := true } }

/-- `_read_loop` ends with an error. -/
def stopReading (error : LossError) : Connection × List (Told M) :=
  { c with reading := false }.fail error

/-- `_read_loop` takes what a chunk completes. -/
def data (chunk : List UInt8) : Connection × List (Told M) :=
  if c.reading then
    let fed := (framing schema).feed c.reader chunk
    let dispatched := dispatchAll schema { c with reader := fed.1 } fed.2
    match fed.1.ended with
    | none => dispatched
    | some error =>
      let failed := dispatched.1.stopReading (.protocol error)
      (failed.1, dispatched.2 ++ failed.2)
  else (c, [])

end Connection

/-- The connection as a machine. -/
def machine {M : Type} (schema : Schema M) : Machine Connection Input (Told M) where
  step c
    | .data chunk => c.data schema chunk
    | .endOfStream =>
      if c.reading then c.stopReading (.connection "connection closed by peer") else (c, [])
    | .readFails detail =>
      if c.reading then c.stopReading (.connection s!"read failed: {detail}") else (c, [])
    | .silence secs =>
      if c.connected then c.fail (.connection s!"no inbound data for {secs}s") else (c, [])
    | .beginClose =>
      { c with connected := false, reading := false }.rejectPending (.connection "connection closed")
    | .request clientMsgId request =>
      if c.connected then ({ c with pending := c.pending.set clientMsgId { request } }, [])
      else (c, [])
    | .abandoned clientMsgId => (c.abandon clientMsgId, [])
    | .forgotten clientMsgId => ({ c with pending := c.pending.erase clientMsgId }, [])

end Wire

end NautilusCtrader
