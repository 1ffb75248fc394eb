import QwerQ.Message
import QwerQ.Library.Parser
import QwerQ.Library.Varint

/-! The binary encoding of stored messages. A string of the source is any sequence
of bytes, and the storage accepts every one, so names and keys are bytes here. -/
namespace QwerQ.Badger
open List

abbrev Bytes := List UInt8

abbrev HeaderMap := KeyedMap (Prod.fst : Bytes × Bytes → Bytes)

structure Message where
  id : Bytes
  queue : Bytes
  payload : Bytes
  headers : HeaderMap
  attempt : UInt32
  publishedAt : Time
  visibleAt : Time
  orderingKey : Bytes
  sequence : UInt64
  deriving DecidableEq

def unixNano (t : Time) : Int64 := Int64.ofInt (t - unixEpoch)

def unixTime (nanos : Int64) : Time := unixEpoch + nanos.toInt

def Representable (t : Time) : Prop := -2 ^ 63 ≤ t - unixEpoch ∧ t - unixEpoch < 2 ^ 63

instance (t : Time) : Decidable (Representable t) := inferInstanceAs (Decidable (_ ∧ _))

theorem unixTime_unixNano {t : Time} (h : Representable t) : unixTime (unixNano t) = t := by
  rw [unixTime, unixNano, Int64.toInt_ofInt_of_le h.1 h.2]
  exact add_sub_cancel _ _

def messageEncodingV1 : UInt8 := 1
def messageEncodingV2 : UInt8 := 2

def appendUvarint (dst : Bytes) (v : UInt64) : Bytes := dst ++ Varint.encode v

def appendVarint (dst : Bytes) (v : Int64) : Bytes := dst ++ Varint.encodeSigned v

def appendBytes (dst data : Bytes) : Bytes := appendUvarint dst (.ofNat data.length) ++ data

def appendString (dst s : Bytes) : Bytes := appendUvarint dst (.ofNat s.length) ++ s

/-- The header loop; `headers` is the map in the order in which it is visited. -/
def appendHeaders (dst : Bytes) (headers : List (Bytes × Bytes)) : Bytes :=
  headers.foldl (fun dst (k, v) => appendString (appendString dst k) v) dst

def appendFields (order : List Bytes) (msg : Message) (buf : Bytes) : Bytes :=
  let buf := appendBytes buf msg.payload
  let buf := appendUvarint buf (.ofNat msg.headers.entries.length)
  let buf := appendHeaders buf (msg.headers.inOrder order)
  let buf := appendUvarint buf msg.attempt.toUInt64
  let buf := appendVarint buf (unixNano msg.publishedAt)
  let buf := appendVarint buf (unixNano msg.visibleAt)
  let buf := appendString buf msg.orderingKey
  appendUvarint buf msg.sequence

def encodeMessage (order : List Bytes) (msg : Message) : Bytes :=
  appendFields order msg [messageEncodingV2]

/-- The older layout, which also holds the id and the queue. -/
def encodeMessageV1 (order : List Bytes) (msg : Message) : Bytes :=
  appendFields order msg (appendString (appendString [messageEncodingV1] msg.id) msg.queue)

/-- `PutUvarint` returns the number of bytes it writes. -/
def uvarintSize (v : UInt64) : Nat := (Varint.encode v).length

def varintSize (v : Int64) : Nat := (Varint.encodeSigned v).length

def encodedMessageSizeV2 (order : List Bytes) (msg : Message) : Nat :=
  let n := 1 + uvarintSize (.ofNat msg.payload.length) + msg.payload.length
  let n := n + uvarintSize (.ofNat msg.headers.entries.length)
  let n := (msg.headers.inOrder order).foldl (fun n header =>
    n + (uvarintSize (.ofNat header.1.length) + header.1.length) +
      (uvarintSize (.ofNat header.2.length) + header.2.length)) n
  let n := n + uvarintSize msg.attempt.toUInt64
  let n := n + varintSize (unixNano msg.publishedAt)
  let n := n + varintSize (unixNano msg.visibleAt)
  let n := n + (uvarintSize (.ofNat msg.orderingKey.length) + msg.orderingKey.length)
  n + uvarintSize msg.sequence

inductive DecodeError where
  | emptyPayload
  | invalidUvarint
  | invalidVarint
  | truncatedPayload
  | json (text : String)
  deriving DecidableEq, Repr

/-- The text of an error of `json.Unmarshal` is its own. -/
def DecodeError.message : DecodeError → String
  | .emptyPayload => "decode message: empty payload"
  | .invalidUvarint => "decode message: invalid uvarint"
  | .invalidVarint => "decode message: invalid varint"
  | .truncatedPayload => "decode message: truncated payload"
  | .json text => text

def readUvarint (data : Bytes) : Except DecodeError (UInt64 × Bytes) :=
  let (v, n) := Varint.decode data
  if n ≤ 0 then .error .invalidUvarint else .ok (v, data.drop n.toNat)

def readVarint (data : Bytes) : Except DecodeError (Int64 × Bytes) :=
  let (v, n) := Varint.decodeSigned data
  if n ≤ 0 then .error .invalidVarint else .ok (v, data.drop n.toNat)

def readBytes (data : Bytes) : Except DecodeError (Bytes × Bytes) := do
  let (length, rest) ← readUvarint data
  if rest.length < length.toNat then .error .truncatedPayload
  else .ok (rest.take length.toNat, rest.drop length.toNat)

def readString (data : Bytes) : Except DecodeError (Bytes × Bytes) := readBytes data

def readHeaders : Nat → HeaderMap → Bytes → Except DecodeError (HeaderMap × Bytes)
  | 0, headers, buf => .ok (headers, buf)
  | rounds + 1, headers, buf => do
      let (k, buf) ← readString buf
      let (v, buf) ← readString buf
      readHeaders rounds (headers.insert (k, v)) buf

def decodeMessageFields (buf : Bytes) (msg : Message) : Except DecodeError Message := do
  let (payload, buf) ← readBytes buf
  let (headerCount, buf) ← readUvarint buf
  let (headers, buf) ← readHeaders headerCount.toNat ∅ buf
  let (attempt, buf) ← readUvarint buf
  let (publishedAt, buf) ← readVarint buf
  let (visibleAt, buf) ← readVarint buf
  let (orderingKey, buf) ← readString buf
  let (sequence, _) ← readUvarint buf
  return { msg with
    payload := payload
    headers := headers
    attempt := attempt.toUInt32
    publishedAt := unixTime publishedAt
    visibleAt := unixTime visibleAt
    orderingKey := orderingKey
    sequence := sequence }

def decodeMessageV1 (buf : Bytes) (msg : Message) : Except DecodeError Message := do
  let (id, buf) ← readString buf
  let (queue, buf) ← readString buf
  decodeMessageFields buf { msg with id := id, queue := queue }

def decodeMessageV2 (buf : Bytes) (msg : Message) : Except DecodeError Message :=
  decodeMessageFields buf msg

/-- `unmarshal` is `json.Unmarshal`, for the records of the oldest layout. -/
def decodeMessage (unmarshal : Bytes → Message → Except DecodeError Message) (data : Bytes)
    (msg : Message) : Except DecodeError Message :=
  match data with
  | [] => .error .emptyPayload
  | version :: buf =>
      if version = messageEncodingV1 then decodeMessageV1 buf msg
      else if version = messageEncodingV2 then decodeMessageV2 buf msg
      else unmarshal data msg

@[simp] theorem ok_bind {ε α β : Type} (value : α) (next : α → Except ε β) :
    (Except.ok value >>= next) = next value := rfl

/-- The length of a string, slice or map of the source is an int. -/
def FitsInt (n : Nat) : Prop := n < 2 ^ 63

instance (n : Nat) : Decidable (FitsInt n) := inferInstanceAs (Decidable (n < 2 ^ 63))

theorem FitsInt.toNat_ofNat {n : Nat} (h : FitsInt n) : (UInt64.ofNat n).toNat = n := by
  rw [UInt64.toNat_ofNat']
  exact Nat.mod_eq_of_lt (Nat.lt_trans h (by decide))

section Read
variable (rest : Bytes)

@[simp] theorem readUvarint_encode (v : UInt64) :
    readUvarint (Varint.encode v ++ rest) = .ok (v, rest) := by
  have hpos : ¬((Varint.encode v).length : Int) ≤ 0 := by
    have := Varint.length_encode_pos v
    omega
  simp only [readUvarint, Varint.decode_encode, hpos, if_false, Int.toNat_natCast, drop_left]

@[simp] theorem readVarint_encode (v : Int64) :
    readVarint (Varint.encodeSigned v ++ rest) = .ok (v, rest) := by
  have hpos : ¬((Varint.encodeSigned v).length : Int) ≤ 0 := by
    have : 0 < (Varint.encodeSigned v).length := Varint.length_encode_pos _
    omega
  simp only [readVarint, Varint.decodeSigned_encodeSigned, hpos, if_false, Int.toNat_natCast,
    drop_left]

theorem readBytes_encode {data : Bytes} (h : FitsInt data.length) :
    readBytes (Varint.encode (.ofNat data.length) ++ (data ++ rest)) = .ok (data, rest) := by
  have hroom : ¬(data ++ rest).length < data.length := by
    rw [length_append]
    omega
  rw [readBytes, readUvarint_encode, ok_bind]
  simp only [h.toNat_ofNat, hroom, if_false, take_left, drop_left]

theorem readString_encode {data : Bytes} (h : FitsInt data.length) :
    readString (Varint.encode (.ofNat data.length) ++ (data ++ rest)) = .ok (data, rest) :=
  readBytes_encode rest h

end Read

def headerBytes (header : Bytes × Bytes) : Bytes :=
  appendString (appendString [] header.1) header.2

theorem appendHeaders_eq (dst : Bytes) (headers : List (Bytes × Bytes)) :
    appendHeaders dst headers = dst ++ headers.flatMap headerBytes := by
  induction headers generalizing dst with
  | nil => exact (append_nil dst).symm
  | cons header rest ih =>
    change appendHeaders (appendString (appendString dst header.1) header.2) rest = _
    rw [ih]
    simp [headerBytes, appendString, appendUvarint]

theorem readHeaders_headerBytes {headers : List (Bytes × Bytes)} (read : HeaderMap) (rest : Bytes)
    (h : ∀ header ∈ headers, FitsInt header.1.length ∧ FitsInt header.2.length) :
    readHeaders headers.length read (headers.flatMap headerBytes ++ rest) =
      .ok (headers.foldl KeyedMap.insert read, rest) := by
  induction headers generalizing read with
  | nil => rfl
  | cons header later ih =>
    have ⟨hkey, hvalue⟩ := h header mem_cons_self
    simp only [length_cons, readHeaders, flatMap_cons, headerBytes, appendString,
      appendUvarint, nil_append, append_assoc]
    rw [readString_encode _ hkey, ok_bind, readString_encode _ hvalue, ok_bind]
    exact ih _ fun other hmem => h other (mem_cons_of_mem _ hmem)

/-- `decodeMessageFields` with what is left of the buffer. -/
def readFields (msg : Message) : Parser UInt8 DecodeError Message :=
  .andThen readBytes fun payload =>
  .andThen readUvarint fun headerCount =>
  .andThen (readHeaders headerCount.toNat ∅) fun headers =>
  .andThen readUvarint fun attempt =>
  .andThen readVarint fun publishedAt =>
  .andThen readVarint fun visibleAt =>
  .andThen readString fun orderingKey =>
  .andThen readUvarint fun sequence =>
  .give { msg with
    payload := payload
    headers := headers
    attempt := attempt.toUInt32
    publishedAt := unixTime publishedAt
    visibleAt := unixTime visibleAt
    orderingKey := orderingKey
    sequence := sequence }

theorem map_andThen {first : Parser UInt8 DecodeError α} {next : α → Parser UInt8 DecodeError β}
    {buf : Bytes} : (Parser.andThen first next buf).map Prod.fst = (do
      let (value, buf) ← first buf
      (next value buf).map Prod.fst) := by
  unfold Parser.andThen
  cases first buf <;> rfl

theorem decodeMessageFields_eq (buf : Bytes) (msg : Message) :
    decodeMessageFields buf msg = (readFields msg buf).map Prod.fst := by
  simp only [readFields, map_andThen]
  rfl

/-- What the source's types say about the lengths in a message. -/
structure Message.Sized (msg : Message) : Prop where
  payload : FitsInt msg.payload.length
  count : FitsInt msg.headers.entries.length
  headers : ∀ header ∈ msg.headers.entries, FitsInt header.1.length ∧ FitsInt header.2.length
  orderingKey : FitsInt msg.orderingKey.length

theorem readFields_appendFields {msg : Message} (target : Message) (order : List Bytes)
    (h : msg.Sized) : readFields target (appendFields order msg []) = .ok ({ msg with
      id := target.id
      queue := target.queue
      headers := (msg.headers.inOrder order).foldl KeyedMap.insert ∅
      publishedAt := unixTime (unixNano msg.publishedAt)
      visibleAt := unixTime (unixNano msg.visibleAt) }, []) := by
  have hperm := msg.headers.inOrder_perm order
  have hheaders := fun header hmem => h.headers header (hperm.mem_iff.mp hmem)
  have hcount : (UInt64.ofNat msg.headers.entries.length).toNat =
      (msg.headers.inOrder order).length := by
    rw [h.count.toNat_ofNat, hperm.length_eq]
  have hsequence : readUvarint (Varint.encode msg.sequence) = .ok (msg.sequence, []) := by
    simpa using readUvarint_encode [] msg.sequence
  simp only [appendFields, appendHeaders_eq, appendBytes, appendString, appendUvarint,
    appendVarint, nil_append, append_assoc]
  rw [readFields, Parser.andThen_ok (readBytes_encode _ h.payload),
    Parser.andThen_ok (readUvarint_encode _ _), hcount,
    Parser.andThen_ok (readHeaders_headerBytes _ _ hheaders),
    Parser.andThen_ok (readUvarint_encode _ _), Parser.andThen_ok (readVarint_encode _ _),
    Parser.andThen_ok (readVarint_encode _ _),
    Parser.andThen_ok (readString_encode _ h.orderingKey), Parser.andThen_ok hsequence]
  simp [Parser.give]

structure Message.Encodable (msg : Message) : Prop where
  id : FitsInt msg.id.length
  queue : FitsInt msg.queue.length
  payload : FitsInt msg.payload.length
  count : FitsInt msg.headers.entries.length
  headers : ∀ header ∈ msg.headers.entries, FitsInt header.1.length ∧ FitsInt header.2.length
  orderingKey : FitsInt msg.orderingKey.length
  publishedAt : Representable msg.publishedAt
  visibleAt : Representable msg.visibleAt

/-- The same message: maps are the same when their entries are. -/
structure Message.Same (left right : Message) : Prop where
  fields : { left with headers := right.headers } = right
  headers : ∀ key, left.headers.find? key = right.headers.find? key

theorem decodeMessageFields_appendFields {msg : Message} (target : Message) (order : List Bytes)
    (h : msg.Encodable) : ∃ decoded : Message,
      decodeMessageFields (appendFields order msg []) target = .ok decoded ∧
        decoded.Same { msg with id := target.id, queue := target.queue } := by
  have hsized : msg.Sized := ⟨h.payload, h.count, h.headers, h.orderingKey⟩
  rw [decodeMessageFields_eq, readFields_appendFields target order hsized,
    unixTime_unixNano h.publishedAt, unixTime_unixNano h.visibleAt]
  exact ⟨_, rfl, rfl, fun key => msg.headers.find?_foldl_insert_inOrder order key⟩

theorem appendFields_eq (order : List Bytes) (msg : Message) (buf : Bytes) :
    appendFields order msg buf = buf ++ appendFields order msg [] := by
  simp [appendFields, appendHeaders_eq, appendBytes, appendString, appendUvarint, appendVarint]

theorem decodeMessage_encodeMessage (unmarshal : Bytes → Message → Except DecodeError Message)
    {msg : Message} (target : Message) (order : List Bytes) (h : msg.Encodable) :
    ∃ decoded, decodeMessage unmarshal (encodeMessage order msg)
        { target with id := msg.id, queue := msg.queue } = .ok decoded ∧ decoded.Same msg := by
  rw [encodeMessage, appendFields_eq]
  exact decodeMessageFields_appendFields _ order h

theorem decodeMessage_encodeMessageV1 (unmarshal : Bytes → Message → Except DecodeError Message)
    {msg : Message} (target : Message) (order : List Bytes) (h : msg.Encodable) :
    ∃ decoded, decodeMessage unmarshal (encodeMessageV1 order msg) target = .ok decoded ∧
      decoded.Same msg := by
  have ⟨decoded, hdecode, hsame⟩ := decodeMessageFields_appendFields
    { target with id := msg.id, queue := msg.queue } order h
  refine ⟨decoded, ?_, hsame⟩
  rw [encodeMessageV1, appendFields_eq]
  simp only [appendString, appendUvarint, append_assoc, cons_append, nil_append]
  change decodeMessageV1 _ target = _
  rw [decodeMessageV1, readString_encode _ h.id, ok_bind]
  simp only [readString_encode _ h.queue, ok_bind]
  exact hdecode

def headerSize (header : Bytes × Bytes) : Nat :=
  (uvarintSize (.ofNat header.1.length) + header.1.length) +
    (uvarintSize (.ofNat header.2.length) + header.2.length)

theorem length_headerBytes (headers : List (Bytes × Bytes)) :
    (headers.flatMap headerBytes).length = (headers.map headerSize).sum := by
  induction headers with
  | nil => rfl
  | cons header rest ih =>
    rw [flatMap_cons, length_append, ih, map_cons, sum_cons]
    simp only [headerBytes, headerSize, appendString, appendUvarint, uvarintSize, nil_append,
      length_append]
    omega

theorem foldl_headerSize (headers : List (Bytes × Bytes)) (n : Nat) :
    headers.foldl (fun n header => n + (uvarintSize (.ofNat header.1.length) + header.1.length) +
      (uvarintSize (.ofNat header.2.length) + header.2.length)) n =
      n + (headers.map headerSize).sum := by
  induction headers generalizing n with
  | nil => rfl
  | cons header rest ih =>
    rw [foldl_cons, ih, map_cons, sum_cons, headerSize]
    omega

theorem length_encodeMessage (msg : Message) (order sizeOrder : List Bytes) :
    (encodeMessage order msg).length = encodedMessageSizeV2 sizeOrder msg := by
  have hsum : ((msg.headers.inOrder order).map headerSize).sum =
      ((msg.headers.inOrder sizeOrder).map headerSize).sum :=
    (((msg.headers.inOrder_perm order).trans (msg.headers.inOrder_perm sizeOrder).symm).map _).sum_nat
  simp only [encodeMessage, appendFields, appendHeaders_eq, appendBytes, appendString, appendUvarint,
    appendVarint, length_append, length_singleton, length_headerBytes, hsum,
    encodedMessageSizeV2, foldl_headerSize]
  simp only [uvarintSize, varintSize]
  omega

/-- Decoding undoes encoding, whatever the order in which the header map is
visited; the encoding has the announced length; and records of the older layout
are read back with their id and queue. -/
theorem codec_roundTrip (unmarshal : Bytes → Message → Except DecodeError Message)
    (msg target : Message) (order sizeOrder : List Bytes) (h : msg.Encodable) :
    (∃ decoded, decodeMessage unmarshal (encodeMessage order msg)
        { target with id := msg.id, queue := msg.queue } = .ok decoded ∧ decoded.Same msg) ∧
      (encodeMessage order msg).length = encodedMessageSizeV2 sizeOrder msg ∧
      ∃ decoded, decodeMessage unmarshal (encodeMessageV1 order msg) target = .ok decoded ∧
        decoded.Same msg :=
  ⟨decodeMessage_encodeMessage unmarshal target order h, length_encodeMessage msg order sizeOrder,
    decodeMessage_encodeMessageV1 unmarshal target order h⟩

def earlyOrder : Message where
  id := [97]
  queue := [111]
  payload := [1]
  headers := KeyedMap.insert ∅ ([104], [118])
  attempt := 3
  publishedAt := unixEpoch - 1
  visibleAt := unixEpoch + 300
  orderingKey := [107]
  sequence := 17

theorem earlyOrder_encodable : earlyOrder.Encodable where
  id := by decide
  queue := by decide
  payload := by decide
  count := by decide
  headers := by decide
  orderingKey := by decide
  publishedAt := by decide
  visibleAt := by decide

theorem codec_roundTrip_earlyOrder :
    encodeMessage [] earlyOrder = [2, 1, 1, 1, 1, 104, 1, 118, 3, 1, 216, 4, 1, 107, 17] ∧
      ∃ decoded, decodeMessage (fun _ _ => .error (.json "")) (encodeMessage [] earlyOrder)
        { earlyOrder with payload := [], headers := ∅ } = .ok decoded ∧ decoded.Same earlyOrder :=
  ⟨by decide, (codec_roundTrip _ earlyOrder { earlyOrder with payload := [], headers := ∅ } [] []
    earlyOrder_encodable).1⟩

end QwerQ.Badger
