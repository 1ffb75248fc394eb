import QwerQ.Handlers
import QwerQ.Queue.Ledger
import QwerQ.Protocol.Messages

/-! The limit on the size of a message. It is checked on the frame of the request
that publishes a message and, by the client that consumes it, on the frame that
delivers it. -/
namespace QwerQ
open Protobuf (Bytes bytesSize varintSize delimitedSize entrySize utf8)

def Protocol.PublishRequest.read (req : Protocol.PublishRequest) : QwerQ.PublishRequest :=
  ⟨req.queue, req.payload, req.headers, req.getMessageId, req.getIdempotencyKey, req.orderingKey⟩

def messageToProto (msg : Message) : Protocol.Message :=
  ⟨msg.id, msg.queue, msg.payload, msg.headers, msg.attempt, .ofInt (unixMilli msg.publishedAt),
    msg.orderingKey⟩

namespace Server

def opMessage : Protocol.OpCode := 0x04

def messagePayload (order : List String) (msg : Message) : Bytes :=
  Protocol.marshal ((messageToProto msg).fields order)

def messageFrame (order : List String) (msg : Message) : Bytes :=
  Protocol.writeFrame opMessage (messagePayload order msg)

/-- The bytes of a delivery, from what the request and the broker's readings hold. -/
def deliverySize (req : Protocol.PublishRequest) (env : PublishEnv) (attempt : UInt32) : Nat :=
  bytesSize (utf8 (if req.getMessageId = "" then env.ulid else req.getMessageId)) +
    bytesSize (utf8 req.queue) + bytesSize req.payload +
    (req.headers.entries.map fun pair => delimitedSize (entrySize pair)).sum +
    varintSize attempt.toUInt64 + varintSize (Int64.ofInt (unixMilli env.now)).toUInt64 +
    bytesSize (utf8 req.orderingKey)

theorem length_messagePayload {req : Protocol.PublishRequest} {env : PublishEnv} {msg : Message}
    (hmsg : msg.body = (publishMessage req.read env).body) (order : List String) :
    (messagePayload order msg).length = deliverySize req env msg.attempt := by
  have hfields := hmsg
  simp only [Message.body, Body.mk.injEq] at hfields
  obtain ⟨hid, hqueue, hpayload, hheaders, hpublished, hordering⟩ := hfields
  rw [messagePayload, Protocol.Message.length_marshal, Protocol.Message.size, messageToProto,
    deliverySize, hid, hqueue, hpayload, hheaders, hpublished, hordering]
  rfl

/-- A message that was published is read by a client of the same limit, at any of its
deliveries, if and only if its delivery is within the limits. Whether the request was
within them does not matter. -/
theorem messageFrame_passes_iff {req : Protocol.PublishRequest} {env : PublishEnv} {msg : Message}
    (hmsg : msg.body = (publishMessage req.read env).body) (order : List String)
    (maxMessageSize : UInt32) (rest : Bytes) :
    Protocol.decodeFrame maxMessageSize (messageFrame order msg ++ rest) =
        (.ok ⟨Protocol.protocolVersion, opMessage, messagePayload order msg⟩, rest) ↔
      deliverySize req env msg.attempt ≤ maxMessageSize.toNat ∧
        deliverySize req env msg.attempt ≤ Protocol.maxFrameSize.toNat - 2 := by
  rw [messageFrame, Protocol.decodeFrame_writeFrame_iff, ← length_messagePayload hmsg order]
  constructor
  · intro h
    exact ⟨h.message, h.frame⟩
  · intro h
    exact ⟨h.1, h.2⟩

def smallRequest : Protocol.PublishRequest := ⟨"q", [7], ∅, none, none, ""⟩

def publishingNow : PublishEnv :=
  ⟨0, 0, "01ARZ3NDEKTSV4RRFFQ69G5FAV", ofUnixMilli 1700000000000, Queue.quiet⟩

def firstDelivery : Message := { publishMessage smallRequest.read publishingNow with attempt := 1 }

theorem messageFrame_passes_small :
    Protocol.decodeFrame 43 (messageFrame [] firstDelivery ++ []) =
      (.ok ⟨Protocol.protocolVersion, opMessage, messagePayload [] firstDelivery⟩, []) := by
  have hmsg : firstDelivery.body = (publishMessage smallRequest.read publishingNow).body := rfl
  exact (messageFrame_passes_iff hmsg [] 43 []).mpr (by decide +kernel)

/-- With a limit of six bytes the request is read and accepted, and then every client of
that limit refuses the message. -/
theorem messageFrame_refused :
    ∃ w', Protocol.decodeFrame 6 (Protocol.writeFrame 0x01 (Protocol.marshal (smallRequest.fields []))) =
        (.ok ⟨1, 0x01, Protocol.marshal (smallRequest.fields [])⟩, []) ∧
      Protocol.PublishRequest.unmarshal (Protocol.marshal (smallRequest.fields [])) =
        some smallRequest ∧
      (handlePublish smallRequest.read publishingNow).run (World.opened 0 fun _ => none) =
        (.ok (.ok "01ARZ3NDEKTSV4RRFFQ69G5FAV"), w') ∧
      (w'.queue? "q").map Queue.messages = some [publishMessage smallRequest.read publishingNow] ∧
      (Protocol.decodeFrame 6 (messageFrame [] firstDelivery)).1 = .error .messageTooLarge := by
  refine ⟨_, ?_, ?_, rfl, ?_, ?_⟩ <;> decide +kernel

end Server

end QwerQ
