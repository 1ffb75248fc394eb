import QwerQ.Protocol.Messages

/-! The encoders of the client's fast path, and of the publish response, which write the
bytes of a message by hand. Unlike the generic encoding they also write a queue, a
payload or an id that is empty. -/
namespace QwerQ.Protocol
open List Protobuf

def fieldQueueString : UInt8 := 0x0a
def fieldPayloadBytes : UInt8 := 0x12
def fieldPrefetchUint32 : UInt8 := 0x10
def fieldMessageIDString : UInt8 := 0x0a
def publishResponseMessageIDField : UInt8 := 0x0a

def appendUvarint (buf : Bytes) (v : UInt64) : Bytes := buf ++ Varint.encode v

def encodeSimplePublishRequestPayload (queue : String) (payload : Bytes) : Bytes :=
  let buf := [fieldQueueString]
  let buf := appendUvarint buf (.ofNat (utf8 queue).length)
  let buf := buf ++ utf8 queue
  let buf := buf ++ [fieldPayloadBytes]
  let buf := appendUvarint buf (.ofNat payload.length)
  buf ++ payload

def encodeSimpleConsumeRequestPayload (queue : String) (prefetch visibilityTimeout : UInt32) :
    Bytes :=
  let buf := [fieldQueueString]
  let buf := appendUvarint buf (.ofNat (utf8 queue).length)
  let buf := buf ++ utf8 queue
  let buf := if prefetch ≠ 0 then appendUvarint (buf ++ [fieldPrefetchUint32]) prefetch.toUInt64
    else buf
  if visibilityTimeout ≠ 0 then appendUvarint (buf ++ [0x18]) visibilityTimeout.toUInt64 else buf

def encodeAckRequestPayload (messageID : String) : Bytes :=
  let buf := [fieldMessageIDString]
  let buf := appendUvarint buf (.ofNat (utf8 messageID).length)
  buf ++ utf8 messageID

def encodePublishResponsePayload (messageID : String) : Bytes :=
  let buf := [publishResponseMessageIDField]
  let buf := appendUvarint buf (.ofNat (utf8 messageID).length)
  buf ++ utf8 messageID

theorem encodeSimplePublishRequestPayload_eq (queue : String) (payload : Bytes) :
    encodeSimplePublishRequestPayload queue payload =
      encode [⟨1, .bytes (utf8 queue)⟩, ⟨2, .bytes payload⟩] := by
  have hqueue : tag 1 2 = [fieldQueueString] := rfl
  have hpayload : tag 2 2 = [fieldPayloadBytes] := rfl
  simp only [encodeSimplePublishRequestPayload, appendUvarint, encode_cons, encode_nil, Field.encode,
    hqueue, hpayload, append_assoc, append_nil]

theorem encodeSimpleConsumeRequestPayload_eq (queue : String) (prefetch visibilityTimeout : UInt32) :
    encodeSimpleConsumeRequestPayload queue prefetch visibilityTimeout =
      encode ([⟨1, .bytes (utf8 queue)⟩] ++ varintField 2 prefetch.toUInt64 ++
        varintField 3 visibilityTimeout.toUInt64) := by
  have hqueue : tag 1 2 = [fieldQueueString] := rfl
  have hprefetch : tag 2 0 = [fieldPrefetchUint32] := rfl
  have htimeout : tag 3 0 = [0x18] := rfl
  have hzero (v : UInt32) : v.toUInt64 = 0 ↔ v = 0 := by
    rw [← UInt64.toNat_inj, ← UInt32.toNat_inj, UInt32.toNat_toUInt64]
    rfl
  simp only [encodeSimpleConsumeRequestPayload, appendUvarint, varintField, hzero, ne_eq, ite_not]
  split <;> split <;>
    simp only [encode_append, encode_cons, encode_nil, Field.encode, hqueue, hprefetch, htimeout,
      append_assoc, append_nil]

/-- An acknowledgement and a publish response are the same bytes. -/
theorem encodeAckRequestPayload_eq (messageID : String) :
    encodeAckRequestPayload messageID = encode [⟨1, .bytes (utf8 messageID)⟩] := by
  have hid : tag 1 2 = [fieldMessageIDString] := rfl
  simp only [encodeAckRequestPayload, appendUvarint, encode_cons, encode_nil, Field.encode, hid,
    append_assoc, append_nil]

theorem encodePublishResponsePayload_eq (messageID : String) :
    encodePublishResponsePayload messageID = encode [⟨1, .bytes (utf8 messageID)⟩] :=
  encodeAckRequestPayload_eq messageID

section Read
variable {queue messageID : String} {payload : Bytes} {prefetch visibilityTimeout : UInt32}

theorem unmarshal_simplePublish
    (h : (encodeSimplePublishRequestPayload queue payload).length < 2 ^ 64) :
    PublishRequest.unmarshal (encodeSimplePublishRequestPayload queue payload) =
      some ⟨queue, payload, ∅, none, none, ""⟩ := by
  rw [encodeSimplePublishRequestPayload_eq] at h ⊢
  have hqueue : getString 1 [⟨1, .bytes (utf8 queue)⟩, ⟨2, .bytes payload⟩] = some queue :=
    getString_single rfl
  refine read_plain (by simp [maxNumber]) h ?_
  rw [PublishRequest.ofFields, hqueue]
  rfl

theorem unmarshal_simpleConsume
    (h : (encodeSimpleConsumeRequestPayload queue prefetch visibilityTimeout).length < 2 ^ 64) :
    ConsumeRequest.unmarshal (encodeSimpleConsumeRequestPayload queue prefetch visibilityTimeout) =
      some ⟨queue, prefetch, visibilityTimeout, none⟩ := by
  rw [encodeSimpleConsumeRequestPayload_eq] at h ⊢
  generalize hfields : [⟨1, .bytes (utf8 queue)⟩] ++ varintField 2 prefetch.toUInt64 ++
    varintField 3 visibilityTimeout.toUInt64 = fields at h ⊢
  have hqueue : getString 1 fields = some queue := getString_single (by simp [← hfields])
  have hgroup : getOptional 4 fields = some none := getOptional_of_nil (by simp [← hfields])
  have hprefetch : getUint32 2 fields = prefetch := getUint32_of (by simp [← hfields])
  have htimeout : getUint32 3 fields = visibilityTimeout := getUint32_of (by simp [← hfields])
  refine read_plain (by simp [← hfields, maxNumber]) h ?_
  rw [ConsumeRequest.ofFields, hqueue, hgroup, hprefetch, htimeout]
  rfl

theorem unmarshal_ack (h : (encodeAckRequestPayload messageID).length < 2 ^ 64) :
    AckRequest.unmarshal (encodeAckRequestPayload messageID) = some ⟨messageID⟩ := by
  rw [encodeAckRequestPayload_eq] at h ⊢
  have hid : getString 1 [⟨1, .bytes (utf8 messageID)⟩] = some messageID := getString_single rfl
  refine read_plain (by simp [maxNumber]) h ?_
  rw [AckRequest.ofFields, hid]
  rfl

theorem unmarshal_publishResponse (h : (encodePublishResponsePayload messageID).length < 2 ^ 64) :
    PublishResponse.unmarshal (encodePublishResponsePayload messageID) = some ⟨messageID⟩ := by
  rw [encodePublishResponsePayload_eq] at h ⊢
  have hid : getString 1 [⟨1, .bytes (utf8 messageID)⟩] = some messageID := getString_single rfl
  refine read_plain (by simp [maxNumber]) h ?_
  rw [PublishResponse.ofFields, hid]
  rfl

end Read

/-- The generic encoding leaves fields out that the fast path writes, and adds none. -/
theorem length_bytesField_le (n : Nat) (data : Bytes) :
    (encode (bytesField n data)).length ≤ (encode [⟨n, .bytes data⟩]).length := by
  unfold bytesField
  split
  · exact Nat.zero_le _
  · exact Nat.le_refl _

theorem inOrder_empty (order : List String) : (∅ : StringMap).inOrder order = [] :=
  (KeyedMap.inOrder_perm ∅ order).eq_nil

theorem length_publish_le (queue : String) (payload : Bytes) (order : List String) :
    (marshal (PublishRequest.fields order ⟨queue, payload, ∅, none, none, ""⟩)).length ≤
      (encodeSimplePublishRequestPayload queue payload).length := by
  have hqueue := length_bytesField_le 1 (utf8 queue)
  have hpayload := length_bytesField_le 2 payload
  have hordering : (encode (bytesField 6 (utf8 ""))).length = 0 := rfl
  simp only [encodeSimplePublishRequestPayload_eq, marshal, PublishRequest.fields, inOrder_empty,
    mapField, optionalField, map_nil, append_nil, encode_append, encode_cons,
    encode_nil, length_append, stringField] at hqueue hpayload ⊢
  omega

theorem length_consume_le (queue : String) (prefetch visibilityTimeout : UInt32) :
    (marshal (ConsumeRequest.fields ⟨queue, prefetch, visibilityTimeout, none⟩)).length ≤
      (encodeSimpleConsumeRequestPayload queue prefetch visibilityTimeout).length := by
  have hqueue := length_bytesField_le 1 (utf8 queue)
  simp only [encodeSimpleConsumeRequestPayload_eq, marshal, ConsumeRequest.fields, optionalField,
    append_nil, encode_append, length_append, stringField]
  omega

theorem length_id_le (messageID : String) :
    (marshal (stringField 1 messageID)).length ≤ (encodeAckRequestPayload messageID).length := by
  rw [encodeAckRequestPayload_eq]
  exact length_bytesField_le 1 (utf8 messageID)

/-- Both encodings of a message are read as that message. -/
def ReadAs {α : Type} (unmarshal : Bytes → Option α) (fast generic : Bytes) (message : α) : Prop :=
  unmarshal fast = some message ∧ unmarshal generic = some message

/-- A decoder reads the same from the fast path as from the generic encoding. -/
theorem fastPath_compatible {queue messageID : String} {payload : Bytes}
    {prefetch visibilityTimeout : UInt32} (order : List String)
    (hpublish : (encodeSimplePublishRequestPayload queue payload).length < 2 ^ 63)
    (hconsume : (encodeSimpleConsumeRequestPayload queue prefetch visibilityTimeout).length < 2 ^ 63)
    (hid : (encodeAckRequestPayload messageID).length < 2 ^ 63) :
    ReadAs PublishRequest.unmarshal (encodeSimplePublishRequestPayload queue payload)
      (marshal (PublishRequest.fields order ⟨queue, payload, ∅, none, none, ""⟩))
      ⟨queue, payload, ∅, none, none, ""⟩ ∧
    ReadAs ConsumeRequest.unmarshal
      (encodeSimpleConsumeRequestPayload queue prefetch visibilityTimeout)
      (marshal (ConsumeRequest.fields ⟨queue, prefetch, visibilityTimeout, none⟩))
      ⟨queue, prefetch, visibilityTimeout, none⟩ ∧
    ReadAs AckRequest.unmarshal (encodeAckRequestPayload messageID)
      (marshal (AckRequest.fields ⟨messageID⟩)) ⟨messageID⟩ ∧
    ReadAs PublishResponse.unmarshal (encodePublishResponsePayload messageID)
      (marshal (PublishResponse.fields ⟨messageID⟩)) ⟨messageID⟩ := by
  have hpublish' := Nat.lt_of_le_of_lt (length_publish_le queue payload order) hpublish
  have hconsume' := Nat.lt_of_le_of_lt (length_consume_le queue prefetch visibilityTimeout) hconsume
  have hid' := Nat.lt_of_le_of_lt (length_id_le messageID) hid
  refine ⟨⟨unmarshal_simplePublish (by omega), ?_⟩,
    ⟨unmarshal_simpleConsume (by omega), ConsumeRequest.unmarshal_marshal _ (by omega)⟩,
    ⟨unmarshal_ack (by omega), AckRequest.unmarshal_marshal _ (Nat.lt_trans hid' (by decide))⟩,
    ⟨unmarshal_publishResponse (Nat.lt_trans hid (by decide)),
      PublishResponse.unmarshal_marshal _ (Nat.lt_trans hid' (by decide))⟩⟩
  rw [PublishRequest.unmarshal_marshal _ (by omega), inOrder_empty]
  rfl

/-- The empty queue and payload, which only the fast path writes, and a payload and numbers
whose lengths take two bytes. -/
theorem fastPath_compatible_long :
    encodeSimplePublishRequestPayload "" [] = [0x0a, 0, 0x12, 0] ∧
      ReadAs PublishRequest.unmarshal (encodeSimplePublishRequestPayload "" [])
        (marshal (PublishRequest.fields [] ⟨"", [], ∅, none, none, ""⟩))
        ⟨"", [], ∅, none, none, ""⟩ ∧
      ReadAs PublishRequest.unmarshal
        (encodeSimplePublishRequestPayload "orders" (replicate 200 7))
        (marshal (PublishRequest.fields [] ⟨"orders", replicate 200 7, ∅, none, none, ""⟩))
        ⟨"orders", replicate 200 7, ∅, none, none, ""⟩ ∧
      ReadAs ConsumeRequest.unmarshal (encodeSimpleConsumeRequestPayload "orders" 300 86400)
        (marshal (ConsumeRequest.fields ⟨"orders", 300, 86400, none⟩))
        ⟨"orders", 300, 86400, none⟩ := by
  have hempty := @fastPath_compatible "" "a" [] 0 0 [] (by decide) (by decide) (by decide)
  have hlong := @fastPath_compatible "orders" "a" (replicate 200 7) 300 86400 [] (by decide +kernel)
    (by decide) (by decide)
  exact ⟨rfl, hempty.1, hlong.1, hlong.2.1⟩

end QwerQ.Protocol
