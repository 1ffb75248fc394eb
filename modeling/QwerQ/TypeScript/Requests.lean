import QwerQ.TypeScript.Codec

/-! What a proto3 decoder reads from the requests of the TypeScript client. Each encoder
writes the fields of a message; those at their default, which it leaves out, are read
at their default. -/
namespace QwerQ.TypeScript
open List
open Protobuf (Bytes utf8 Field stringField bytesField optionalField varintField mapField sparseEntry
  encode maxNumber encode_append encode_cons encode_nil)

section Fields
variable {n wireType value : Nat} {data : Bytes} (hn : n ≤ maxNumber)
include hn

theorem encodeTag_eq (htype : wireType < 8) : encodeTag n wireType = Protobuf.tag n wireType := by
  have hmax : maxNumber = 536870911 := rfl
  have htag : n <<< 3 ||| wireType = 8 * n + wireType := by
    rw [Nat.shiftLeft_eq, Nat.mul_comm, ← Nat.two_pow_add_eq_or_of_lt (show wireType < 2 ^ 3 from htype)]
  rw [encodeTag, htag, encodeVarint_eq (by omega), Protobuf.tag]

theorem encodeBytesField_eq (h : (encodeBytesField n data).length < 2 ^ 64) :
    encodeBytesField n data = encode (bytesField n data) := by
  unfold encodeBytesField bytesField at *
  split
  · rfl
  · rename_i hdata
    rw [if_neg hdata, length_append] at h
    rw [encodeTag_eq hn (by decide), encodeVarint_eq (by omega), encode_cons, encode_nil,
      append_nil]
    rfl

theorem encodeStringField_eq {s : String} (h : (encodeStringField n s).length < 2 ^ 64) :
    encodeStringField n s = encode (stringField n s) := by
  have hbytes : encodeStringField n s = encodeBytesField n (utf8 s) := by
    simp only [encodeStringField, encodeBytesField, Protobuf.utf8_eq_nil_iff]
  rw [hbytes] at h ⊢
  exact encodeBytesField_eq hn h

theorem encodeOptionalStringField_eq {text : Option String}
    (h : (encodeOptionalStringField n text).length < 2 ^ 64) :
    encodeOptionalStringField n text = encode (stringField n (text.getD "")) := by
  cases text with
  | none => rfl
  | some s =>
    have hstring : encodeOptionalStringField n (some s) = encodeStringField n s := by
      simp only [encodeOptionalStringField, encodeStringField]
      split <;> rfl
    rw [hstring] at h ⊢
    exact encodeStringField_eq hn h

theorem encodeUint32Field_eq (value : UInt32) :
    encodeUint32Field n value.toNat = encode (varintField n value.toUInt64) := by
  have hlt := value.toNat_lt
  have hzero : value.toUInt64 = 0 ↔ value.toNat = 0 := by
    rw [← UInt64.toNat_inj, UInt32.toNat_toUInt64]
    rfl
  have hvalue : UInt64.ofNat value.toNat = value.toUInt64 := by
    apply UInt64.toNat_inj.mp
    rw [UInt64.toNat_ofNat', UInt32.toNat_toUInt64]
    omega
  simp only [encodeUint32Field, varintField, hzero]
  split
  · rfl
  · rw [encodeTag_eq hn (by decide), encodeVarint_eq (by omega), hvalue, encode_cons, encode_nil,
      append_nil]
    rfl

theorem encodeBoolField_eq (value : Bool) :
    encodeBoolField n value = encode (varintField n (if value then 1 else 0)) := by
  cases value with
  | false => rfl
  | true =>
    have hone : encodeVarint 1 = Varint.encode 1 := @encodeVarint_eq 1 (by decide)
    simp only [encodeBoolField, if_true, encodeTag_eq hn (show 0 < 8 by decide), hone]
    rw [varintField, if_neg (by decide), encode_cons, encode_nil, append_nil]
    rfl

theorem encodeMapField_eq {entries : List (String × String)}
    (h : (encodeMapField n entries).length < 2 ^ 64) :
    encodeMapField n entries = encode (mapField n sparseEntry entries) := by
  induction entries with
  | nil => rfl
  | cons pair rest ih =>
    have hcons : encodeMapField n (pair :: rest) = encodeTag n 2 ++
        encodeVarint (encodeStringField 1 pair.1 ++ encodeStringField 2 pair.2).length ++
        (encodeStringField 1 pair.1 ++ encodeStringField 2 pair.2) ++ encodeMapField n rest := rfl
    rw [hcons] at h ⊢
    simp only [length_append] at h
    have hdata : encodeStringField 1 pair.1 ++ encodeStringField 2 pair.2 = encode (sparseEntry pair) := by
      rw [sparseEntry, encode_append, encodeStringField_eq (by decide) (by omega),
        encodeStringField_eq (by decide) (by omega)]
    have hlength : (encode (sparseEntry pair)).length < 2 ^ 64 := by
      rw [← hdata, length_append]
      omega
    rw [hdata, encodeTag_eq hn (by decide), encodeVarint_eq hlength, ih (by omega)]
    rfl

theorem encodeHeaders_eq {headers : Option StringMap} (h : (encodeHeaders n headers).length < 2 ^ 64) :
    encodeHeaders n headers = encode (mapField n sparseEntry (headers.getD ∅).entries) := by
  cases headers with
  | none => rfl
  | some map => exact encodeMapField_eq hn h

end Fields

theorem stringField_eq_optionalField (n : Nat) (s : String) :
    stringField n s = optionalField n (if s = "" then none else some s) := by
  by_cases hs : s = ""
  · rw [hs]
    rfl
  · rw [if_neg hs, stringField, bytesField, if_neg (mt Protobuf.utf8_eq_nil_iff.mp hs)]
    rfl

theorem getD_toNat (value : Option UInt32) :
    (value.map UInt32.toNat).getD 0 = (value.getD 0).toNat := by
  cases value <;> rfl

section Read
variable {queue messageId messageType : String} {payload descriptor : Bytes}
  {headers : Option StringMap} {givenId idempotencyKey : Option String}
  {prefetch visibilityTimeout timeoutMs : Option UInt32} {extensionSeconds : UInt32} {requeue : Bool}

theorem unmarshal_encodePublishRequest
    (h : (encodePublishRequest queue payload headers givenId idempotencyKey).length < 2 ^ 64) :
    Protocol.PublishRequest.unmarshal
        (encodePublishRequest queue payload headers givenId idempotencyKey) =
      some ⟨queue, payload, headers.getD ∅,
        if givenId.getD "" = "" then none else some (givenId.getD ""),
        if idempotencyKey.getD "" = "" then none else some (idempotencyKey.getD ""), ""⟩ := by
  generalize hfields : stringField 1 queue ++ bytesField 2 payload ++
    mapField 3 sparseEntry (headers.getD ∅).entries ++ stringField 4 (givenId.getD "") ++
    stringField 5 (idempotencyKey.getD "") = fields
  have hencode : encodePublishRequest queue payload headers givenId idempotencyKey = encode fields := by
    simp only [encodePublishRequest, length_append] at h ⊢
    rw [← hfields, encodeStringField_eq (by decide) (by omega),
      encodeBytesField_eq (by decide) (by omega), encodeHeaders_eq (by decide) (by omega),
      encodeOptionalStringField_eq (by decide) (by omega),
      encodeOptionalStringField_eq (by decide) (by omega)]
    simp only [encode_append]
  rw [hencode] at h ⊢
  rw [stringField_eq_optionalField 4, stringField_eq_optionalField 5,
    ← append_nil (_ ++ _)] at hfields
  have hread := @Protocol.PublishRequest.unmarshal_encode ⟨queue, payload, ∅, _, _, ""⟩ _ _ _ hfields
    Protobuf.readEntry_sparse h
  rwa [KeyedMap.foldl_insert_entries] at hread

theorem unmarshal_encodeConsumeRequest (h : (encodeConsumeRequest queue (prefetch.map UInt32.toNat)
      (visibilityTimeout.map UInt32.toNat)).length < 2 ^ 64) :
    Protocol.ConsumeRequest.unmarshal (encodeConsumeRequest queue (prefetch.map UInt32.toNat)
        (visibilityTimeout.map UInt32.toNat)) =
      some ⟨queue, prefetch.getD 0, visibilityTimeout.getD 0, none⟩ := by
  have hencode : encodeConsumeRequest queue (prefetch.map UInt32.toNat)
      (visibilityTimeout.map UInt32.toNat) = Protocol.marshal (Protocol.ConsumeRequest.fields
        ⟨queue, prefetch.getD 0, visibilityTimeout.getD 0, none⟩) := by
    simp only [encodeConsumeRequest, length_append, getD_toNat] at h ⊢
    rw [encodeStringField_eq (by decide) (by omega), encodeUint32Field_eq (by decide),
      encodeUint32Field_eq (by decide)]
    simp [Protocol.marshal, Protocol.ConsumeRequest.fields, optionalField]
  rw [hencode] at h ⊢
  exact Protocol.ConsumeRequest.unmarshal_marshal _ h

theorem unmarshal_encodeAckRequest (h : (encodeAckRequest messageId).length < 2 ^ 64) :
    Protocol.AckRequest.unmarshal (encodeAckRequest messageId) = some ⟨messageId⟩ := by
  rw [encodeAckRequest, encodeStringField_eq (by decide) h]
  rw [encodeAckRequest, encodeStringField_eq (by decide) h] at h
  exact Protocol.AckRequest.unmarshal_marshal ⟨messageId⟩ h

theorem unmarshal_encodeNackRequest (h : (encodeNackRequest messageId requeue).length < 2 ^ 64) :
    Protocol.NackRequest.unmarshal (encodeNackRequest messageId requeue) =
      some ⟨messageId, requeue⟩ := by
  generalize hfields : stringField 1 messageId ++ varintField 2 (if requeue then 1 else 0) = fields
  have hencode : encodeNackRequest messageId requeue = encode fields := by
    simp only [encodeNackRequest, length_append] at h ⊢
    rw [← hfields, encodeStringField_eq (by decide) (by omega), encodeBoolField_eq (by decide),
      encode_append]
  rw [hencode] at h ⊢
  have hid : Protobuf.getString 1 fields = some messageId :=
    Protobuf.getString_of (by simp [← hfields])
  have hflag : Protobuf.getUint64 2 fields = if requeue then 1 else 0 :=
    Protobuf.getUint64_of (by simp [← hfields])
  have hrequeue : Protobuf.getBool 2 fields = requeue := by
    rw [Protobuf.getBool, hflag]
    cases requeue with
    | false => rfl
    | true => rfl
  refine Protobuf.read_plain (by simp [← hfields, maxNumber]) h ?_
  rw [Protocol.NackRequest.ofFields, hid, hrequeue]
  rfl

theorem unmarshal_encodeExtendVisibilityRequest
    (h : (encodeExtendVisibilityRequest messageId extensionSeconds.toNat).length < 2 ^ 64) :
    Protocol.ExtendVisibilityRequest.unmarshal
        (encodeExtendVisibilityRequest messageId extensionSeconds.toNat) =
      some ⟨messageId, extensionSeconds⟩ := by
  generalize hfields : stringField 1 messageId ++ varintField 2 extensionSeconds.toUInt64 = fields
  have hencode : encodeExtendVisibilityRequest messageId extensionSeconds.toNat = encode fields := by
    simp only [encodeExtendVisibilityRequest, length_append] at h ⊢
    rw [← hfields, encodeStringField_eq (by decide) (by omega), encodeUint32Field_eq (by decide),
      encode_append]
  rw [hencode] at h ⊢
  have hid : Protobuf.getString 1 fields = some messageId :=
    Protobuf.getString_of (by simp [← hfields])
  have hextension : Protobuf.getUint32 2 fields = extensionSeconds :=
    Protobuf.getUint32_of (by simp [← hfields])
  refine Protobuf.read_plain (by simp [← hfields, maxNumber]) h ?_
  rw [Protocol.ExtendVisibilityRequest.ofFields, hid, hextension]
  rfl

theorem unmarshal_encodeCallRequest
    (h : (encodeCallRequest queue payload headers (timeoutMs.map UInt32.toNat)).length < 2 ^ 64) :
    Protocol.CallRequest.unmarshal
        (encodeCallRequest queue payload headers (timeoutMs.map UInt32.toNat)) =
      some ⟨queue, payload, headers.getD ∅, timeoutMs.getD 0⟩ := by
  generalize hfields : stringField 1 queue ++ bytesField 2 payload ++
    mapField 3 sparseEntry (headers.getD ∅).entries ++
    varintField 4 (timeoutMs.getD 0).toUInt64 = fields
  have hencode : encodeCallRequest queue payload headers (timeoutMs.map UInt32.toNat) =
      encode fields := by
    simp only [encodeCallRequest, length_append, getD_toNat] at h ⊢
    rw [← hfields, encodeStringField_eq (by decide) (by omega),
      encodeBytesField_eq (by decide) (by omega), encodeHeaders_eq (by decide) (by omega),
      encodeUint32Field_eq (by decide)]
    simp only [encode_append]
  have hsub : mapField 3 sparseEntry (headers.getD ∅).entries ⊆ fields := by
    intro field hmem
    simp only [← hfields, mem_append]
    exact .inl (.inr hmem)
  rw [hencode] at h ⊢
  have hqueue : Protobuf.getString 1 fields = some queue :=
    Protobuf.getString_of (by simp [← hfields])
  have hpayload : Protobuf.getBytes 2 fields = payload := Protobuf.getBytes_of (by simp [← hfields])
  have hheaders := Protobuf.getMap_of (show Protobuf.bytesAt 3 fields = _ by simp [← hfields])
    fun pair hmem => Protobuf.readEntry_sparse (Protobuf.length_entry hmem hsub h)
  have htimeout : Protobuf.getUint32 4 fields = timeoutMs.getD 0 :=
    Protobuf.getUint32_of (by simp [← hfields])
  refine Protobuf.read_plain (by simp [← hfields, maxNumber]) h ?_
  rw [Protocol.CallRequest.ofFields, hqueue, hpayload, hheaders, KeyedMap.foldl_insert_entries,
    htimeout]
  rfl

theorem unmarshal_encodeSchemaRegisterRequest
    (h : (encodeSchemaRegisterRequest queue descriptor messageType).length < 2 ^ 64) :
    Protocol.SchemaRegisterRequest.unmarshal
        (encodeSchemaRegisterRequest queue descriptor messageType) =
      some ⟨queue, descriptor, messageType⟩ := by
  generalize hfields : stringField 1 queue ++ bytesField 2 descriptor ++
    stringField 3 messageType = fields
  have hencode : encodeSchemaRegisterRequest queue descriptor messageType = encode fields := by
    simp only [encodeSchemaRegisterRequest, length_append] at h ⊢
    rw [← hfields, encodeStringField_eq (by decide) (by omega),
      encodeBytesField_eq (by decide) (by omega), encodeStringField_eq (by decide) (by omega)]
    simp only [encode_append]
  rw [hencode] at h ⊢
  have hqueue : Protobuf.getString 1 fields = some queue :=
    Protobuf.getString_of (by simp [← hfields])
  have hdescriptor : Protobuf.getBytes 2 fields = descriptor :=
    Protobuf.getBytes_of (by simp [← hfields])
  have htype : Protobuf.getString 3 fields = some messageType :=
    Protobuf.getString_of (by simp [← hfields])
  refine Protobuf.read_plain (by simp [← hfields, maxNumber]) h ?_
  rw [Protocol.SchemaRegisterRequest.ofFields, hqueue, hdescriptor, htype]
  rfl

end Read

theorem getD_ite_empty (given : Option String) :
    (if given.getD "" = "" then none else some (given.getD "") : Option String).getD "" =
      given.getD "" := by
  by_cases h : given.getD "" = ""
  · rw [if_pos h, h]
    rfl
  · rw [if_neg h]
    rfl

/-- A proto3 decoder reads from every request of the client the values that were
encoded. No buffer holds `2 ^ 64` bytes, so its length fits the length of a field. -/
theorem requests_decode :
    (∀ (queue : String) (payload : Bytes) (headers : Option StringMap)
        (messageId idempotencyKey : Option String),
      (encodePublishRequest queue payload headers messageId idempotencyKey).length < 2 ^ 64 →
      ∃ req, Protocol.PublishRequest.unmarshal
          (encodePublishRequest queue payload headers messageId idempotencyKey) = some req ∧
        req.queue = queue ∧ req.payload = payload ∧ req.headers = headers.getD ∅ ∧
        req.getMessageId = messageId.getD "" ∧
        req.getIdempotencyKey = idempotencyKey.getD "" ∧ req.orderingKey = "") ∧
    (∀ (queue : String) (prefetch visibilityTimeout : Option UInt32),
      (encodeConsumeRequest queue (prefetch.map UInt32.toNat)
        (visibilityTimeout.map UInt32.toNat)).length < 2 ^ 64 →
      Protocol.ConsumeRequest.unmarshal (encodeConsumeRequest queue (prefetch.map UInt32.toNat)
          (visibilityTimeout.map UInt32.toNat)) =
        some ⟨queue, prefetch.getD 0, visibilityTimeout.getD 0, none⟩) ∧
    (∀ messageId : String, (encodeAckRequest messageId).length < 2 ^ 64 →
      Protocol.AckRequest.unmarshal (encodeAckRequest messageId) = some ⟨messageId⟩) ∧
    (∀ (messageId : String) (requeue : Bool),
      (encodeNackRequest messageId requeue).length < 2 ^ 64 →
      Protocol.NackRequest.unmarshal (encodeNackRequest messageId requeue) =
        some ⟨messageId, requeue⟩) ∧
    (∀ (messageId : String) (extensionSeconds : UInt32),
      (encodeExtendVisibilityRequest messageId extensionSeconds.toNat).length < 2 ^ 64 →
      Protocol.ExtendVisibilityRequest.unmarshal
          (encodeExtendVisibilityRequest messageId extensionSeconds.toNat) =
        some ⟨messageId, extensionSeconds⟩) ∧
    (∀ (queue : String) (payload : Bytes) (headers : Option StringMap) (timeoutMs : Option UInt32),
      (encodeCallRequest queue payload headers (timeoutMs.map UInt32.toNat)).length < 2 ^ 64 →
      Protocol.CallRequest.unmarshal
          (encodeCallRequest queue payload headers (timeoutMs.map UInt32.toNat)) =
        some ⟨queue, payload, headers.getD ∅, timeoutMs.getD 0⟩) ∧
    (∀ (queue : String) (descriptor : Bytes) (messageType : String),
      (encodeSchemaRegisterRequest queue descriptor messageType).length < 2 ^ 64 →
      Protocol.SchemaRegisterRequest.unmarshal
          (encodeSchemaRegisterRequest queue descriptor messageType) =
        some ⟨queue, descriptor, messageType⟩) ∧
    ∀ v : Nat, v < 2 ^ 64 → decodeVarint (encodeVarint v) = (v, []) := by
  refine ⟨?_, fun _ _ _ => unmarshal_encodeConsumeRequest, fun _ => unmarshal_encodeAckRequest,
    fun _ _ => unmarshal_encodeNackRequest, fun _ _ => unmarshal_encodeExtendVisibilityRequest,
    fun _ _ _ _ => unmarshal_encodeCallRequest, fun _ _ _ => unmarshal_encodeSchemaRegisterRequest,
    ?_⟩
  · intro queue payload headers messageId idempotencyKey h
    exact ⟨_, unmarshal_encodePublishRequest h, rfl, rfl, rfl, getD_ite_empty messageId,
      getD_ite_empty idempotencyKey, rfl⟩
  · intro v hv
    simpa using decodeVarint_encodeVarint hv []

/-- A header may be empty on both sides, and a number may be the largest. -/
theorem requests_decode_extremes :
    (∃ req, Protocol.PublishRequest.unmarshal (encodePublishRequest "jobs" [7]
        (some (KeyedMap.insert ∅ ("", ""))) none (some "k")) = some req ∧
      req.headers.find? "" = some ("", "") ∧ req.getIdempotencyKey = "k") ∧
    Protocol.ConsumeRequest.unmarshal (encodeConsumeRequest "jobs" (some 4294967295) none) =
      some ⟨"jobs", 4294967295, 0, none⟩ := by
  obtain ⟨hpublish, hconsume, -⟩ := requests_decode
  obtain ⟨req, hreq, -, -, hheaders, -, hkey, -⟩ := hpublish "jobs" [7]
    (some (KeyedMap.insert ∅ ("", ""))) none (some "k") (by decide +kernel)
  refine ⟨⟨req, hreq, ?_, hkey⟩, hconsume "jobs" (some 4294967295) none (by decide +kernel)⟩
  rw [hheaders]
  decide

end QwerQ.TypeScript
