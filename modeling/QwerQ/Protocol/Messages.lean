import QwerQ.Protocol.Frame
import QwerQ.Library.Protobuf

/-! The messages of the protocol's schema that the clients and the broker exchange here,
with the generic encoding of the Go library and the reading of a proto3 decoder. The
library writes fields in the order of their numbers, those at their default not at
all, and the entries of a map in any order. -/
namespace QwerQ.Protocol
open Protobuf

structure PublishRequest where
  queue : String
  payload : Bytes
  headers : StringMap
  messageId : Option String
  idempotencyKey : Option String
  orderingKey : String
  deriving DecidableEq

structure PublishResponse where
  messageId : String
  deriving DecidableEq

structure ConsumeRequest where
  queue : String
  prefetch : UInt32
  visibilityTimeout : UInt32
  group : Option String
  deriving DecidableEq

structure Message where
  messageId : String
  queue : String
  payload : Bytes
  headers : StringMap
  attempt : UInt32
  publishedAt : Int64
  orderingKey : String
  deriving DecidableEq

structure AckRequest where
  messageId : String
  deriving DecidableEq

structure NackRequest where
  messageId : String
  requeue : Bool
  deriving DecidableEq

structure ErrorResponse where
  code : UInt32
  message : String
  deriving DecidableEq

structure SchemaRegisterRequest where
  queue : String
  descriptor : Bytes
  messageType : String
  deriving DecidableEq

structure CallRequest where
  queue : String
  payload : Bytes
  headers : StringMap
  timeoutMs : UInt32
  deriving DecidableEq

structure ExtendVisibilityRequest where
  messageId : String
  extensionSeconds : UInt32
  deriving DecidableEq

namespace PublishRequest

def ofFields (fields : List Field) : Option PublishRequest := do
  return {
    queue := ← getString 1 fields
    payload := getBytes 2 fields
    headers := ← getMap 3 fields
    messageId := ← getOptional 4 fields
    idempotencyKey := ← getOptional 5 fields
    orderingKey := ← getString 6 fields }

def unmarshal (data : Bytes) : Option PublishRequest := do ofFields (← decode data)

def getMessageId (req : PublishRequest) : String := req.messageId.getD ""

def getIdempotencyKey (req : PublishRequest) : String := req.idempotencyKey.getD ""

end PublishRequest

namespace PublishResponse

def ofFields (fields : List Field) : Option PublishResponse := do
  return ⟨← getString 1 fields⟩

def unmarshal (data : Bytes) : Option PublishResponse := do ofFields (← decode data)

end PublishResponse

namespace ConsumeRequest

def ofFields (fields : List Field) : Option ConsumeRequest := do
  return {
    queue := ← getString 1 fields
    prefetch := getUint32 2 fields
    visibilityTimeout := getUint32 3 fields
    group := ← getOptional 4 fields }

def unmarshal (data : Bytes) : Option ConsumeRequest := do ofFields (← decode data)

end ConsumeRequest

namespace Message

def ofFields (fields : List Field) : Option Message := do
  return {
    messageId := ← getString 1 fields
    queue := ← getString 2 fields
    payload := getBytes 3 fields
    headers := ← getMap 4 fields
    attempt := getUint32 5 fields
    publishedAt := getInt64 6 fields
    orderingKey := ← getString 7 fields }

def unmarshal (data : Bytes) : Option Message := do ofFields (← decode data)

end Message

namespace AckRequest

def ofFields (fields : List Field) : Option AckRequest := do
  return ⟨← getString 1 fields⟩

def unmarshal (data : Bytes) : Option AckRequest := do ofFields (← decode data)

end AckRequest

namespace NackRequest

def ofFields (fields : List Field) : Option NackRequest := do
  return ⟨← getString 1 fields, getBool 2 fields⟩

def unmarshal (data : Bytes) : Option NackRequest := do ofFields (← decode data)

end NackRequest

namespace SchemaRegisterRequest

def ofFields (fields : List Field) : Option SchemaRegisterRequest := do
  return ⟨← getString 1 fields, getBytes 2 fields, ← getString 3 fields⟩

def unmarshal (data : Bytes) : Option SchemaRegisterRequest := do ofFields (← decode data)

end SchemaRegisterRequest

namespace CallRequest

def ofFields (fields : List Field) : Option CallRequest := do
  return {
    queue := ← getString 1 fields
    payload := getBytes 2 fields
    headers := ← getMap 3 fields
    timeoutMs := getUint32 4 fields }

def unmarshal (data : Bytes) : Option CallRequest := do ofFields (← decode data)

end CallRequest

namespace ExtendVisibilityRequest

def ofFields (fields : List Field) : Option ExtendVisibilityRequest := do
  return ⟨← getString 1 fields, getUint32 2 fields⟩

def unmarshal (data : Bytes) : Option ExtendVisibilityRequest := do ofFields (← decode data)

end ExtendVisibilityRequest

def PublishRequest.fields (order : List String) (req : PublishRequest) : List Field :=
  stringField 1 req.queue ++ bytesField 2 req.payload ++
    mapField 3 fullEntry (req.headers.inOrder order) ++ optionalField 4 req.messageId ++
    optionalField 5 req.idempotencyKey ++ stringField 6 req.orderingKey

def PublishResponse.fields (resp : PublishResponse) : List Field := stringField 1 resp.messageId

def ConsumeRequest.fields (req : ConsumeRequest) : List Field :=
  stringField 1 req.queue ++ varintField 2 req.prefetch.toUInt64 ++
    varintField 3 req.visibilityTimeout.toUInt64 ++ optionalField 4 req.group

def Message.fields (order : List String) (msg : Message) : List Field :=
  stringField 1 msg.messageId ++ stringField 2 msg.queue ++ bytesField 3 msg.payload ++
    mapField 4 fullEntry (msg.headers.inOrder order) ++ varintField 5 msg.attempt.toUInt64 ++
    varintField 6 msg.publishedAt.toUInt64 ++ stringField 7 msg.orderingKey

def AckRequest.fields (req : AckRequest) : List Field := stringField 1 req.messageId

def ErrorResponse.fields (resp : ErrorResponse) : List Field :=
  varintField 1 resp.code.toUInt64 ++ stringField 2 resp.message

def marshal (fields : List Field) : Bytes := encode fields

section RoundTrip
variable {order : List String}

theorem PublishRequest.unmarshal_encode {req : PublishRequest} {entry : String × String → List Field}
    {entries : List (String × String)} {fields : List Field}
    (hfields : stringField 1 req.queue ++ bytesField 2 req.payload ++ mapField 3 entry entries ++
      optionalField 4 req.messageId ++ optionalField 5 req.idempotencyKey ++
      stringField 6 req.orderingKey = fields)
    (hentry : ∀ {pair}, (encode (entry pair)).length < 2 ^ 64 →
      readEntry (encode (entry pair)) = some pair) (h : (encode fields).length < 2 ^ 64) :
    PublishRequest.unmarshal (encode fields) =
      some { req with headers := entries.foldl KeyedMap.insert ∅ } := by
  have hsub : mapField 3 entry entries ⊆ fields := by
    intro field hfield
    simp only [← hfields, List.mem_append]
    exact .inl (.inl (.inl (.inr hfield)))
  have hqueue : getString 1 fields = some req.queue := getString_of (by simp [← hfields])
  have hpayload : getBytes 2 fields = req.payload := getBytes_of (by simp [← hfields])
  have hheaders := getMap_of (show bytesAt 3 fields = _ by simp [← hfields])
    fun pair hmem => hentry (length_entry hmem hsub h)
  have hid : getOptional 4 fields = some req.messageId := getOptional_of (by simp [← hfields])
  have hkey : getOptional 5 fields = some req.idempotencyKey := getOptional_of (by simp [← hfields])
  have hordering : getString 6 fields = some req.orderingKey := getString_of (by simp [← hfields])
  refine read_plain (by simp [← hfields, maxNumber]) h ?_
  rw [PublishRequest.ofFields, hqueue, hpayload, hheaders, hid, hkey, hordering]
  rfl

theorem PublishRequest.unmarshal_marshal (req : PublishRequest)
    (h : (marshal (req.fields order)).length < 2 ^ 64) :
    PublishRequest.unmarshal (marshal (req.fields order)) =
      some { req with headers := (req.headers.inOrder order).foldl KeyedMap.insert ∅ } :=
  unmarshal_encode rfl readEntry_full h

theorem ConsumeRequest.unmarshal_marshal (req : ConsumeRequest)
    (h : (marshal req.fields).length < 2 ^ 64) :
    ConsumeRequest.unmarshal (marshal req.fields) = some req := by
  have hqueue : getString 1 req.fields = some req.queue :=
    getString_of (by simp [ConsumeRequest.fields])
  have hprefetch : getUint32 2 req.fields = req.prefetch :=
    getUint32_of (by simp [ConsumeRequest.fields])
  have htimeout : getUint32 3 req.fields = req.visibilityTimeout :=
    getUint32_of (by simp [ConsumeRequest.fields])
  have hgroup : getOptional 4 req.fields = some req.group :=
    getOptional_of (by simp [ConsumeRequest.fields])
  refine read_plain (by simp [ConsumeRequest.fields, maxNumber]) h ?_
  rw [ConsumeRequest.ofFields, hqueue, hprefetch, htimeout, hgroup]
  rfl

theorem AckRequest.unmarshal_marshal (req : AckRequest) (h : (marshal req.fields).length < 2 ^ 64) :
    AckRequest.unmarshal (marshal req.fields) = some req := by
  have hid : getString 1 req.fields = some req.messageId := getString_of rfl
  refine read_plain (plain_stringField (by decide) _) h ?_
  rw [AckRequest.ofFields, hid]
  rfl

theorem PublishResponse.unmarshal_marshal (resp : PublishResponse)
    (h : (marshal resp.fields).length < 2 ^ 64) :
    PublishResponse.unmarshal (marshal resp.fields) = some resp := by
  have hid : getString 1 resp.fields = some resp.messageId := getString_of rfl
  refine read_plain (plain_stringField (by decide) _) h ?_
  rw [PublishResponse.ofFields, hid]
  rfl

end RoundTrip

/-- Fields that encode a message, in any order. -/
structure Message.EncodedBy (msg : Message) (fields : List Field) : Prop where
  plain : Plain fields
  messageId : Spells (.bytes (utf8 msg.messageId)) (.bytes []) (valuesAt 1 fields)
  queue : Spells (.bytes (utf8 msg.queue)) (.bytes []) (valuesAt 2 fields)
  payload : Spells (.bytes msg.payload) (.bytes []) (valuesAt 3 fields)
  headers : EncodesMap 4 msg.headers.entries fields
  attempt : Spells (.varint msg.attempt.toUInt64) (.varint 0) (valuesAt 5 fields)
  publishedAt : Spells (.varint msg.publishedAt.toUInt64) (.varint 0) (valuesAt 6 fields)
  orderingKey : Spells (.bytes (utf8 msg.orderingKey)) (.bytes []) (valuesAt 7 fields)

theorem Message.encodedBy_fields (msg : Message) (order : List String) :
    msg.EncodedBy (msg.fields order) where
  plain := by simp [Message.fields, maxNumber]
  messageId := spells_string (by simp [Message.fields])
  queue := spells_string (by simp [Message.fields])
  payload := spells_bytes (by simp [Message.fields])
  headers := by
    obtain ⟨written, hperm, hentries, hwritten⟩ := @encodesMap_full 4 (msg.headers.inOrder order)
    refine ⟨written, hperm.trans (msg.headers.inOrder_perm order), hentries, ?_⟩
    simp [Message.fields, hwritten]
  attempt := spells_varint (by simp [Message.fields])
  publishedAt := spells_varint (by simp [Message.fields])
  orderingKey := spells_string (by simp [Message.fields])

def Message.size (msg : Message) : Nat :=
  bytesSize (utf8 msg.messageId) + bytesSize (utf8 msg.queue) + bytesSize msg.payload +
    (msg.headers.entries.map fun pair => delimitedSize (entrySize pair)).sum +
    varintSize msg.attempt.toUInt64 + varintSize msg.publishedAt.toUInt64 +
    bytesSize (utf8 msg.orderingKey)

theorem Message.length_marshal (msg : Message) (order : List String) :
    (marshal (msg.fields order)).length = msg.size := by
  have hheaders : ((msg.headers.inOrder order).map fun pair => delimitedSize (entrySize pair)).sum =
      (msg.headers.entries.map fun pair => delimitedSize (entrySize pair)).sum :=
    ((msg.headers.inOrder_perm order).map _).sum_nat
  simp only [marshal, Message.fields, encode_append, List.length_append,
    length_encode_stringField (show 1 < 16 by decide), length_encode_stringField (show 2 < 16 by decide),
    length_encode_bytesField (show 3 < 16 by decide), length_encode_mapField (show 4 < 16 by decide),
    length_encode_varintField (show 5 < 16 by decide), length_encode_varintField (show 6 < 16 by decide),
    length_encode_stringField (show 7 < 16 by decide), hheaders, Message.size]

end QwerQ.Protocol
