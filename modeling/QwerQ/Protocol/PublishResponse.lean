import QwerQ.Protocol.ClientCodec

/-! The hand-written reader of the publish response, against the generic decoder that the
client falls back on. Both read a length prefix of any spelling; only the generic one
refuses an id that is not UTF-8. -/
namespace QwerQ.Protocol
open List Protobuf

/-- `EncodePublishResponsePayload` on any string of the source, which need not be text. -/
def encodePublishResponseBytes (messageID : Bytes) : Bytes :=
  let buf := [publishResponseMessageIDField]
  let buf := appendUvarint buf (.ofNat messageID.length)
  buf ++ messageID

theorem encodePublishResponsePayload_utf8 (messageID : String) :
    encodePublishResponsePayload messageID = encodePublishResponseBytes (utf8 messageID) := rfl

/-- The conversion of the length and the sum wrap at 64 bits. -/
def decodePublishResponsePayload (payload : Bytes) : Go (Bytes × Bool) :=
  match payload with
  | [] => .ok ([], true)
  | field :: _ =>
      if field ≠ publishResponseMessageIDField then .ok ([], false)
      else do
        let (length, n) := Varint.decode (← slice payload 1 payload.length)
        if n ≤ 0 then .ok ([], false)
        else
          let start : Int64 := 1 + Int64.ofInt n
          let stop : Int64 := start + length.toInt64
          if (payload.length : Int) < stop.toInt then .ok ([], false)
          else if stop.toInt ≠ payload.length then .ok ([], false)
          else return (← slice payload start.toInt stop.toInt, true)

/-- The payload is one field with the length of the text before it, however that length is
spelled. A length of the source is an int. -/
structure Announced (payload text : Bytes) : Prop where
  shape : ∃ size : Bytes, size ≠ [] ∧ payload = publishResponseMessageIDField :: (size ++ text) ∧
    Varint.decode (size ++ text) = (.ofNat text.length, (size.length : Int))
  fits : payload.length < 2 ^ 63

theorem toInt_toInt64_emod (x : UInt64) : x.toInt64.toInt % 2 ^ 64 = x.toNat := by
  have hlt := x.toNat_lt
  change x.toInt64.toBitVec.toInt % 2 ^ 64 = _
  rw [BitVec.toInt_eq_toNat_bmod]
  change (x.toNat : Int).bmod (2 ^ 64) % ((2 ^ 64 : Nat) : Int) = _
  rw [Int.bmod_emod]
  omega

/-- Where the id ends, in the numbers that the source computes with. -/
theorem toInt_stop_emod {n : Int} (hn : 0 ≤ n ∧ n ≤ Varint.maxLength) (length : UInt64) :
    (1 + Int64.ofInt n).toInt = 1 + n ∧
      (1 + Int64.ofInt n + length.toInt64).toInt % 2 ^ 64 = (1 + n + length.toNat) % 2 ^ 64 := by
  have hlength := toInt_toInt64_emod length
  have hmax : (Varint.maxLength : Int) = 10 := rfl
  have hstart : (1 + Int64.ofInt n).toInt = 1 + n := by
    rw [Int64.toInt_add, Int64.toInt_ofInt_of_le (by omega) (by omega)]
    exact Int.bmod_eq_of_le (by change -(2 ^ 64 / 2 : Int) ≤ 1 + n; omega)
      (by change 1 + n < ((2 ^ 64 + 1) / 2 : Int); omega)
  refine ⟨hstart, ?_⟩
  rw [Int64.toInt_add, hstart]
  change (1 + n + length.toInt64.toInt).bmod (2 ^ 64) % ((2 ^ 64 : Nat) : Int) = _
  rw [Int.bmod_emod]
  omega

theorem slice_field (field : UInt8) (rest : Bytes) :
    slice (field :: rest) 1 (field :: rest).length = .ok rest :=
  slice_from ⟨by omega, by rw [length_cons]; omega⟩

section Field
variable {rest : Bytes} {length : UInt64} {n : Int} {stop : Int64}

/-- The two comparisons of the end leave one that is accepted. -/
theorem decodePublishResponsePayload_field (hread : Varint.decode rest = (length, n)) (hn : 0 < n)
    (hstop : 1 + Int64.ofInt n + length.toInt64 = stop) :
    decodePublishResponsePayload (publishResponseMessageIDField :: rest) =
      if stop.toInt = (publishResponseMessageIDField :: rest).length then
        (slice (publishResponseMessageIDField :: rest) (1 + Int64.ofInt n).toInt stop.toInt).map
          fun text => (text, true)
      else .ok ([], false) := by
  have hpos : ¬n ≤ 0 := by omega
  unfold decodePublishResponsePayload
  simp only [ne_eq, not_true_eq_false, if_false, slice_field, bind, Except.bind, hread, hstop, hpos]
  split_ifs with hlong hexact hexact
  · omega
  · rfl
  · rfl
  · rfl

end Field

theorem decodePublishResponsePayload_announced {payload text : Bytes} (h : Announced payload text) :
    decodePublishResponsePayload payload = .ok (text, true) := by
  obtain ⟨⟨size, hsize, rfl, hread⟩, hfits⟩ := h
  have hpos : 0 < size.length := length_pos_iff.mpr hsize
  have hmax := Varint.decode_le_maxLength (size ++ text)
  rw [hread] at hmax
  have hwhole : (publishResponseMessageIDField :: (size ++ text)).length =
      size.length + text.length + 1 := by
    rw [length_cons, length_append]
  have ⟨hstart, hstop⟩ := toInt_stop_emod ⟨by omega, hmax⟩ (.ofNat text.length)
  rw [UInt64.toNat_ofNat', Nat.mod_eq_of_lt (by omega)] at hstop
  generalize hend : 1 + Int64.ofInt size.length + (UInt64.ofNat text.length).toInt64 = stop at hstop
  have hexact : stop.toInt = (publishResponseMessageIDField :: (size ++ text)).length := by
    have hlt := Int64.toInt_lt stop
    have hle := Int64.le_toInt stop
    omega
  have hdrop : (1 + (size.length : Int)).toNat = size.length + 1 := by omega
  rw [decodePublishResponsePayload_field hread (by omega) hend, if_pos hexact, hstart, hexact,
    slice_from ⟨by omega, by omega⟩, hdrop, drop_succ_cons, drop_left]
  rfl

theorem announced_of_stop {rest : Bytes} {length : UInt64} {n : Int} {stop : Int64}
    (hread : Varint.decode rest = (length, n)) (hn : 0 < n)
    (hstop : 1 + Int64.ofInt n + length.toInt64 = stop)
    (hexact : stop.toInt = (publishResponseMessageIDField :: rest).length) :
    Announced (publishResponseMessageIDField :: rest) (rest.drop n.toNat) := by
  have hle := Varint.decode_le rest
  have hmax := Varint.decode_le_maxLength rest
  rw [hread] at hle hmax
  dsimp only at hle hmax
  have hsum := (toInt_stop_emod ⟨by omega, hmax⟩ length).2
  have hlt := Int64.toInt_lt stop
  have hword := length.toNat_lt
  rw [hstop, hexact] at hsum
  rw [length_cons] at hexact hsum
  have hsize : (rest.take n.toNat).length = n.toNat := by
    rw [length_take]
    omega
  -- the sum has not wrapped, so the length is that of the rest
  have hlength : (rest.drop n.toNat).length = length.toNat := by
    rw [length_drop]
    omega
  refine ⟨⟨rest.take n.toNat, ?_, ?_, ?_⟩, ?_⟩
  · rw [← length_pos_iff, hsize]
    omega
  · rw [take_append_drop]
  · rw [take_append_drop, hread, hlength, hsize, UInt64.ofNat_toNat, Int.toNat_of_nonneg (by omega)]
  · rw [length_cons]
    omega

theorem decodePublishResponsePayload_cases (payload : Bytes) :
    payload = [] ∨ decodePublishResponsePayload payload = .ok ([], false) ∨
      ∃ text, Announced payload text := by
  rcases payload with - | ⟨field, rest⟩
  · exact .inl rfl
  right
  by_cases hfield : field = publishResponseMessageIDField
  · subst hfield
    cases hread : Varint.decode rest with
    | mk length n =>
      by_cases hn : 0 < n
      · generalize hstop : 1 + Int64.ofInt n + length.toInt64 = stop
        by_cases hexact : stop.toInt = (publishResponseMessageIDField :: rest).length
        · exact .inr ⟨_, announced_of_stop hread hn hstop hexact⟩
        · left
          rw [decodePublishResponsePayload_field hread hn hstop, if_neg hexact]
      · left
        unfold decodePublishResponsePayload
        simp only [ne_eq, not_true_eq_false, if_false, slice_field, bind, Except.bind, hread,
          Int.not_lt.mp hn, if_true]
  · left
    exact if_pos hfield

theorem utf8_of_ofUtf8? {data : Bytes} {s : String} (h : ofUtf8? data = some s) : utf8 s = data := by
  unfold ofUtf8? String.fromUTF8? at h
  split at h
  · cases h
    rfl
  · cases h

theorem decode_announced {payload text : Bytes} (h : Announced payload text) :
    Protobuf.decode payload = some [⟨1, .bytes text⟩] := by
  obtain ⟨⟨size, hsize, rfl, hread⟩, hfits⟩ := h
  have hpos : 0 < size.length := length_pos_iff.mpr hsize
  rw [length_cons, length_append] at hfits
  have htag (rest : Bytes) : readVarint (publishResponseMessageIDField :: rest) = some (10, rest) := rfl
  have hlength : readVarint (size ++ text) = some (.ofNat text.length, text) := by
    rw [readVarint, hread]
    simp only [show ¬(size.length : Int) ≤ 0 by omega, if_false, Int.toNat_natCast, drop_left]
  have htext : readBytes (UInt64.ofNat text.length).toNat text = some (text, []) := by
    have hall := readBytes_append text []
    rw [append_nil] at hall
    rw [UInt64.toNat_ofNat', Nat.mod_eq_of_lt (by omega), hall]
  have hfield : readField (publishResponseMessageIDField :: (size ++ text)) =
      some (⟨1, .bytes text⟩, []) := by
    rw [readField, htag]
    change (readValue 2 (size ++ text)).bind _ = _
    simp only [readValue, hlength, htext, Option.bind_eq_bind, Option.bind_some]
    rfl
  have hend (rounds : Nat) : readFields rounds [] = some [] := by cases rounds <;> rfl
  rw [Protobuf.decode, length_cons, readFields, if_neg (cons_ne_nil _ _), hfield]
  simp only [Option.bind_eq_bind, Option.bind_some, hend]
  rfl

theorem unmarshal_announced {payload text : Bytes} (h : Announced payload text) :
    PublishResponse.unmarshal payload = (ofUtf8? text).map PublishResponse.mk := by
  rw [PublishResponse.unmarshal, decode_announced h]
  have htexts : getOptional 1 [⟨1, .bytes text⟩] = (ofUtf8? text).map some := by
    cases htext : ofUtf8? text <;> simp [getOptional, htext]
  rw [Option.bind_eq_bind, Option.bind_some, PublishResponse.ofFields, getString, htexts]
  cases ofUtf8? text <;> rfl

theorem announced_encode {messageID : Bytes}
    (h : (encodePublishResponseBytes messageID).length < 2 ^ 63) :
    Announced (encodePublishResponseBytes messageID) messageID where
  shape := by
    refine ⟨Varint.encode (.ofNat messageID.length), ?_, ?_, Varint.decode_encode _ _⟩
    · exact length_pos_iff.mp (Varint.length_encode_pos _)
    · simp [encodePublishResponseBytes, appendUvarint]
  fits := h

/-- The id that a payload announces is text. -/
def Textual (payload : Bytes) : Prop := ∀ text, Announced payload text → (ofUtf8? text).isSome

/-- The fast path never panics. What it accepts the generic decoder accepts as well, with the
same id, exactly if the id is text. It reads back every id. -/
theorem decodePublishResponsePayload_agrees (payload : Bytes) :
    (∃ result, decodePublishResponsePayload payload = .ok result) ∧
      ((∀ id, decodePublishResponsePayload payload = .ok (id, true) →
          ∃ resp, PublishResponse.unmarshal payload = some resp ∧ utf8 resp.messageId = id) ↔
        Textual payload) ∧
      ∀ id, (encodePublishResponseBytes id).length < 2 ^ 63 →
        decodePublishResponsePayload (encodePublishResponseBytes id) = .ok (id, true) := by
  refine ⟨?_, ⟨fun hagrees text hannounced => ?_, fun htextual id hid => ?_⟩,
    fun id h => decodePublishResponsePayload_announced (announced_encode h)⟩
  · obtain rfl | hfalse | ⟨text, hannounced⟩ := decodePublishResponsePayload_cases payload
    · exact ⟨_, rfl⟩
    · exact ⟨_, hfalse⟩
    · exact ⟨_, decodePublishResponsePayload_announced hannounced⟩
  · obtain ⟨resp, hresp, -⟩ := hagrees text (decodePublishResponsePayload_announced hannounced)
    rw [unmarshal_announced hannounced] at hresp
    cases htext : ofUtf8? text with
    | none =>
      rw [htext] at hresp
      cases hresp
    | some s => rfl
  · obtain rfl | hfalse | ⟨text, hannounced⟩ := decodePublishResponsePayload_cases payload
    · cases hid
      exact ⟨⟨""⟩, rfl, rfl⟩
    · rw [hfalse] at hid
      cases hid
    · rw [decodePublishResponsePayload_announced hannounced] at hid
      cases hid
      obtain ⟨s, hs⟩ := Option.isSome_iff_exists.mp (htextual id hannounced)
      refine ⟨⟨s⟩, ?_, utf8_of_ofUtf8? hs⟩
      rw [unmarshal_announced hannounced, hs]
      rfl

/-- An id of three bytes, with a length prefix one byte longer than it need be. -/
theorem decodePublishResponsePayload_agrees_long :
    decodePublishResponsePayload [0x0a, 0x83, 0, 97, 98, 99] = .ok ([97, 98, 99], true) ∧
      (∃ resp, PublishResponse.unmarshal [0x0a, 0x83, 0, 97, 98, 99] = some resp ∧
        utf8 resp.messageId = [97, 98, 99]) ∧
      decodePublishResponsePayload (encodePublishResponsePayload "abc") = .ok (utf8 "abc", true) := by
  have hdecode : decodePublishResponsePayload [0x0a, 0x83, 0, 97, 98, 99] =
      .ok ([97, 98, 99], true) := by decide
  have hagrees := decodePublishResponsePayload_agrees [0x0a, 0x83, 0, 97, 98, 99]
  have htextual : Textual [0x0a, 0x83, 0, 97, 98, 99] := by
    intro text hannounced
    rw [decodePublishResponsePayload_announced hannounced] at hdecode
    cases hdecode
    decide
  refine ⟨hdecode, hagrees.2.1.mpr htextual _ hdecode, ?_⟩
  rw [encodePublishResponsePayload_utf8]
  exact hagrees.2.2 (utf8 "abc") (by decide)

/-- One byte that no text contains. -/
theorem decodePublishResponsePayload_not_text :
    decodePublishResponsePayload [0x0a, 1, 0xff] = .ok ([0xff], true) ∧
      PublishResponse.unmarshal [0x0a, 1, 0xff] = none :=
  ⟨by decide, by decide⟩

end QwerQ.Protocol
