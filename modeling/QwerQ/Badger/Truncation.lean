import QwerQ.Badger.Codec

/-! The decoder of stored messages on input that is cut short or made up. Every slice that
it takes is checked here against the length of what it is taken from, and a slice beyond it
is a panic; none of them occurs. -/
namespace QwerQ.Badger

abbrev Sliced := ExceptT DecodeError Go

namespace Sliced

def readUvarint (data : Bytes) : Sliced (UInt64 × Bytes) := do
  let (v, n) := Varint.decode data
  if n ≤ 0 then throw .invalidUvarint
  return (v, ← slice data n data.length)

def readVarint (data : Bytes) : Sliced (Int64 × Bytes) := do
  let (v, n) := Varint.decodeSigned data
  if n ≤ 0 then throw .invalidVarint
  return (v, ← slice data n data.length)

def readBytes (data : Bytes) : Sliced (Bytes × Bytes) := do
  let (length, rest) ← readUvarint data
  if rest.length < length.toNat then throw .truncatedPayload
  let value ← slice rest 0 length.toNat
  return (value, ← slice rest length.toNat rest.length)

def readString (data : Bytes) : Sliced (Bytes × Bytes) := readBytes data

def readHeaders : Nat → HeaderMap → Bytes → Sliced (HeaderMap × Bytes)
  | 0, headers, buf => return (headers, buf)
  | rounds + 1, headers, buf => do
      let (k, buf) ← readString buf
      let (v, buf) ← readString buf
      readHeaders rounds (headers.insert (k, v)) buf

/-- Before it reads the headers the source makes a map with room for `int(headerCount)` of
them. That this allocation succeeds, whatever the count says, is assumed here. -/
def decodeMessageFields (buf : Bytes) (msg : Message) : Sliced Message := do
  let (payload, buf) ← readBytes buf
  let (headerCount, buf) ← readUvarint buf
  let (headers, buf) ← readHeaders headerCount.toNat ∅ buf
  let (attempt, buf) ← readUvarint buf
  let (publishedAt, buf) ← readVarint buf
  let (visibleAt, buf) ← readVarint buf
  let (orderingKey, buf) ← readString buf
  let (sequence, _) ← readUvarint buf
  return { msg with
    payload := payload
    headers := headers
    attempt := attempt.toUInt32
    publishedAt := unixTime publishedAt
    visibleAt := unixTime visibleAt
    orderingKey := orderingKey
    sequence := sequence }

def decodeMessageV1 (buf : Bytes) (msg : Message) : Sliced Message := do
  let (id, buf) ← readString buf
  let (queue, buf) ← readString buf
  decodeMessageFields buf { msg with id := id, queue := queue }

def decodeMessageV2 (buf : Bytes) (msg : Message) : Sliced Message := decodeMessageFields buf msg

def decodeMessage (unmarshal : Bytes → Message → Except DecodeError Message) (data : Bytes)
    (msg : Message) : Sliced Message := do
  match data with
  | [] => throw .emptyPayload
  | version :: _ =>
      if version = messageEncodingV1 then decodeMessageV1 (← slice data 1 data.length) msg
      else if version = messageEncodingV2 then decodeMessageV2 (← slice data 1 data.length) msg
      else ExceptT.mk (.ok (unmarshal data msg))

def returned (result : Except DecodeError α) : Sliced α := ExceptT.mk (.ok result)

theorem returned_bind {first : Except DecodeError α} {next : α → Sliced β}
    {follow : α → Except DecodeError β} (h : ∀ value, next value = returned (follow value)) :
    (returned first >>= next) = returned (first >>= follow) := by
  cases first with
  | error err => rfl
  | ok value => exact h value

theorem lift_ok {read : Go α} {value : α} (h : read = .ok value) :
    (liftM read : Sliced α) = returned (.ok value) := by
  rw [h]
  rfl

theorem readUvarint_eq (data : Bytes) : readUvarint data = returned (Badger.readUvarint data) := by
  have hle := Varint.decode_le data
  unfold readUvarint Badger.readUvarint
  by_cases hnone : (Varint.decode data).2 ≤ 0
  · simp only [hnone, if_true]
    rfl
  · simp only [hnone, if_false]
    rw [lift_ok (slice_from ⟨by omega, hle⟩)]
    rfl

theorem readVarint_eq (data : Bytes) : readVarint data = returned (Badger.readVarint data) := by
  have hle := Varint.decodeSigned_le data
  unfold readVarint Badger.readVarint
  by_cases hnone : (Varint.decodeSigned data).2 ≤ 0
  · simp only [hnone, if_true]
    rfl
  · simp only [hnone, if_false]
    rw [lift_ok (slice_from ⟨by omega, hle⟩)]
    rfl

theorem readBytes_eq (data : Bytes) : readBytes data = returned (Badger.readBytes data) := by
  rw [readBytes, readUvarint_eq]
  refine returned_bind fun (length, rest) => ?_
  by_cases hshort : rest.length < length.toNat
  · simp only [hshort, if_true]
    rfl
  · simp only [hshort, if_false]
    rw [lift_ok (slice_to ⟨by omega, by omega⟩), lift_ok (slice_from ⟨by omega, by omega⟩)]
    rfl

theorem readString_eq (data : Bytes) : readString data = returned (Badger.readString data) :=
  readBytes_eq data

theorem readHeaders_eq (rounds : Nat) (headers : HeaderMap) (buf : Bytes) :
    readHeaders rounds headers buf = returned (Badger.readHeaders rounds headers buf) := by
  induction rounds generalizing headers buf with
  | zero => rfl
  | succ rounds ih =>
    rw [readHeaders, readString_eq]
    refine returned_bind fun (k, buf) => ?_
    simp only [readString_eq]
    exact returned_bind fun (v, buf) => ih _ _

theorem decodeMessageFields_eq (buf : Bytes) (msg : Message) :
    decodeMessageFields buf msg = returned (Badger.decodeMessageFields buf msg) := by
  unfold decodeMessageFields
  simp only [readBytes_eq, readUvarint_eq, readHeaders_eq, readVarint_eq, readString_eq]
  refine returned_bind fun (payload, buf) => ?_
  refine returned_bind fun (headerCount, buf) => ?_
  refine returned_bind fun (headers, buf) => ?_
  refine returned_bind fun (attempt, buf) => ?_
  refine returned_bind fun (publishedAt, buf) => ?_
  refine returned_bind fun (visibleAt, buf) => ?_
  refine returned_bind fun (orderingKey, buf) => ?_
  exact returned_bind fun (sequence, rest) => rfl

theorem decodeMessageV1_eq (buf : Bytes) (msg : Message) :
    decodeMessageV1 buf msg = returned (Badger.decodeMessageV1 buf msg) := by
  unfold decodeMessageV1
  simp only [readString_eq, decodeMessageFields_eq]
  refine returned_bind fun (id, buf) => ?_
  exact returned_bind fun (queue, buf) => rfl

theorem decodeMessage_eq (unmarshal : Bytes → Message → Except DecodeError Message)
    (data : Bytes) (msg : Message) :
    decodeMessage unmarshal data msg = returned (Badger.decodeMessage unmarshal data msg) := by
  cases data with
  | nil => rfl
  | cons version buf =>
    have hslice : (liftM (slice (version :: buf) 1 (version :: buf).length) : Sliced Bytes) =
        returned (.ok buf) :=
      lift_ok (slice_from ⟨by omega, by rw [List.length_cons]; omega⟩)
    unfold decodeMessage Badger.decodeMessage
    simp only [hslice]
    split_ifs with hv1 hv2
    · exact decodeMessageV1_eq buf msg
    · exact decodeMessageFields_eq buf msg
    · rfl

end Sliced

theorem steady_readUvarint : Parser.Steady readUvarint :=
  Parser.steady_counted Varint.decode_le Varint.decode_append

theorem steady_readVarint : Parser.Steady readVarint :=
  Parser.steady_counted Varint.decodeSigned_le Varint.decodeSigned_append

theorem readBytes_andThen : readBytes = Parser.andThen readUvarint fun length =>
    Parser.taking length.toNat .truncatedPayload := rfl

theorem steady_readBytes : Parser.Steady readBytes := by
  rw [readBytes_andThen]
  exact steady_readUvarint.andThen fun length => Parser.steady_taking length.toNat _

theorem steady_readString : Parser.Steady readString := steady_readBytes

theorem steady_readHeaders (rounds : Nat) (headers : HeaderMap) :
    Parser.Steady (readHeaders rounds headers) := by
  induction rounds generalizing headers with
  | zero => exact Parser.steady_give headers
  | succ rounds ih =>
    exact steady_readString.andThen fun k => steady_readString.andThen fun v => ih (headers.insert (k, v))

theorem steady_readFields (msg : Message) : Parser.Steady (readFields msg) :=
  steady_readBytes.andThen fun _ => steady_readUvarint.andThen fun _ =>
  (steady_readHeaders _ _).andThen fun _ => steady_readUvarint.andThen fun _ =>
  steady_readVarint.andThen fun _ => steady_readVarint.andThen fun _ =>
  steady_readString.andThen fun _ => steady_readUvarint.andThen fun _ => Parser.steady_give _

theorem decodeMessage_take_encodeMessage
    (unmarshal : Bytes → Message → Except DecodeError Message) {msg : Message} (target : Message)
    (order : List Bytes) (h : msg.Sized) {part : Bytes} (hne : part ≠ [])
    (hpart : part <+: encodeMessage order msg) (hproper : part ≠ encodeMessage order msg) :
    ∃ err, decodeMessage unmarshal part target = .error err := by
  obtain ⟨more, hmore⟩ := hpart
  have hcut : more ≠ [] := fun hnil => hproper (by rw [← hmore, hnil, List.append_nil])
  cases part with
  | nil => exact absurd rfl hne
  | cons version buf =>
    rw [encodeMessage, appendFields_eq, List.singleton_append, List.cons_append,
      List.cons.injEq] at hmore
    obtain ⟨rfl, hfields⟩ := hmore
    have hwhole := readFields_appendFields target order h
    rw [← hfields] at hwhole
    obtain ⟨err, herr⟩ := (steady_readFields target).rejects hwhole hcut
    refine ⟨err, ?_⟩
    change decodeMessageFields buf target = _
    rw [decodeMessageFields_eq, herr]
    rfl

/-- A record of either binary layout is decoded or refused with every slice in bounds, and
whatever is cut off the end of an encoding makes the decoder refuse what is left. -/
theorem decodeMessage_safe (unmarshal : Bytes → Message → Except DecodeError Message)
    (target : Message) :
    (∀ version buf, version = messageEncodingV1 ∨ version = messageEncodingV2 →
      (∃ err, (Sliced.decodeMessage unmarshal (version :: buf) target).run = .ok (.error err)) ∨
        ∃ msg, (Sliced.decodeMessage unmarshal (version :: buf) target).run = .ok (.ok msg)) ∧
      ∀ (msg : Message) (order : List Bytes) (part : Bytes), msg.Sized → part ≠ [] →
        part <+: encodeMessage order msg → part ≠ encodeMessage order msg →
          ∃ err, (Sliced.decodeMessage unmarshal part target).run = .ok (.error err) := by
  refine ⟨fun version buf _ => ?_, fun msg order part h hne hpart hproper => ?_⟩
  · rw [Sliced.decodeMessage_eq]
    cases decodeMessage unmarshal (version :: buf) target with
    | error err => exact .inl ⟨err, rfl⟩
    | ok msg => exact .inr ⟨msg, rfl⟩
  · obtain ⟨err, herr⟩ := decodeMessage_take_encodeMessage unmarshal target order h hne hpart hproper
    refine ⟨err, ?_⟩
    rw [Sliced.decodeMessage_eq, herr]
    rfl

theorem decodeMessage_safe_earlyOrder :
    (∃ err, (Sliced.decodeMessage (fun _ _ => .error (.json "")) [2, 1, 1, 1, 1, 104]
        earlyOrder).run = .ok (.error err)) ∧
      ∃ err, (Sliced.decodeMessage (fun _ _ => .error (.json ""))
        [1, 255, 255, 255, 255, 255, 255, 255, 255, 255, 1] earlyOrder).run = .ok (.error err) := by
  have ⟨hbounds, hcut⟩ := decodeMessage_safe (fun _ _ => .error (.json "")) earlyOrder
  have hsized : earlyOrder.Sized := ⟨by decide, by decide, by decide, by decide⟩
  refine ⟨hcut earlyOrder [] _ hsized (by decide) (by decide) (by decide), ?_⟩
  -- a string of `2 ^ 64 - 1` bytes is announced
  refine (hbounds 1 _ (.inl rfl)).resolve_right ?_
  rintro ⟨msg, hmsg⟩
  cases hmsg

end QwerQ.Badger
