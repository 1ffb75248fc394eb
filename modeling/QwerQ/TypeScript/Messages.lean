import QwerQ.TypeScript.Codec

/-! What the TypeScript client makes of the messages a broker delivers. -/
namespace QwerQ.TypeScript
open List KeyedMap
open Protobuf (Bytes Value Field encode Plain valuesAt Spells EncodesEntry EncodesMap utf8)

def dataOf : Value → Data
  | .varint value => .bigint value.toNat
  | .fixed64 data | .fixed32 data => .bigint (littleEndian data)
  | .bytes data => .buffer data

theorem numberOf_of_lt {v : Nat} (h : v < 2 ^ 53) : numberOf v = v := if_pos h

theorem decodeVarint_tag {number wireType : Nat} (hnumber : number ≤ Protobuf.maxNumber)
    (htype : wireType < 8) (rest : Bytes) :
    decodeVarint (Protobuf.tag number wireType ++ rest) = (8 * number + wireType, rest) := by
  have hmax : Protobuf.maxNumber = 536870911 := rfl
  rw [Protobuf.tag, decodeVarint_encode, UInt64.toNat_ofNat', Nat.mod_eq_of_lt (by omega)]

section Fields
variable {fields : List Field} {rounds : Nat}

theorem decodeFieldsFrom_cons {number : Nat} {value : Value} {rest : DecodedFields}
    (hnumber : number ≤ Protobuf.maxNumber)
    (hplain : (∃ v, value = .varint v) ∨ ∃ data, value = .bytes data ∧ data.length < 2 ^ 53)
    (hrest : decodeFieldsFrom rounds (encode fields) = .ok rest) :
    decodeFieldsFrom (rounds + 1) (encode (⟨number, value⟩ :: fields)) =
      .ok ((number, dataOf value) :: rest) := by
  have hmax : Protobuf.maxNumber = 536870911 := rfl
  have hnumberOf : numberOf number = number := numberOf_of_lt (by omega)
  have hpos := Field.length_encode_pos ⟨number, value⟩
  have hsome : Field.encode ⟨number, value⟩ ++ encode fields ≠ [] := by
    intro hnil
    rw [(append_eq_nil_iff.mp hnil).1] at hpos
    exact absurd hpos (by decide)
  rw [Protobuf.encode_cons, decodeFieldsFrom, if_neg hsome]
  rcases hplain with ⟨v, rfl⟩ | ⟨data, rfl, hlength⟩
  · rw [Field.encode, append_assoc, decodeVarint_tag hnumber (by decide)]
    have hmod : (8 * number + 0) % 8 = 0 := by omega
    have hdiv : (8 * number + 0) / 8 = number := by omega
    simp only [hmod, hdiv, decodeData, decodeVarint_encode, hnumberOf, bind, Except.bind, hrest]
    rfl
  · have hlen : (UInt64.ofNat data.length).toNat = data.length := by
      rw [UInt64.toNat_ofNat']
      exact Nat.mod_eq_of_lt (Nat.lt_trans hlength (by decide))
    have hmod : (8 * number + 2) % 8 = 2 := by omega
    have hdiv : (8 * number + 2) / 8 = number := by omega
    rw [Field.encode, append_assoc, append_assoc, decodeVarint_tag hnumber (by decide)]
    simp only [hmod, hdiv, decodeData, decodeVarint_encode, hnumberOf, hlen, numberOf_of_lt hlength,
      take_left, drop_left, bind, Except.bind, hrest]
    rfl

theorem decodeFieldsFrom_encode (hplain : Plain fields) (hlength : (encode fields).length < 2 ^ 53)
    (hrounds : (encode fields).length ≤ rounds) :
    decodeFieldsFrom rounds (encode fields) =
      .ok (fields.map fun field => (field.number, dataOf field.value)) := by
  induction fields generalizing rounds with
  | nil => cases rounds <;> rfl
  | cons field fields ih =>
    have hpos := field.length_encode_pos
    have hfield := hplain field mem_cons_self
    rw [Protobuf.encode_cons, length_append] at hlength hrounds
    obtain ⟨rounds, rfl⟩ : ∃ fewer, rounds = fewer + 1 := ⟨rounds - 1, by omega⟩
    have hrest := @ih rounds (fun other hmem => hplain other (mem_cons_of_mem _ hmem)) (by omega)
      (by omega)
    refine decodeFieldsFrom_cons hfield.1.2 (hfield.2.imp_right ?_) hrest
    rintro ⟨data, hdata⟩
    have hle : data.length ≤ field.encode.length := by
      simp only [Field.encode, hdata, length_append]
      omega
    exact ⟨data, hdata, by omega⟩

theorem decodeFields_encode (hplain : Plain fields) (hlength : (encode fields).length < 2 ^ 53) :
    decodeFields (encode fields) = .ok (fields.map fun field => (field.number, dataOf field.value)) :=
  decodeFieldsFrom_encode hplain hlength (Nat.le_refl _)

theorem at_map (n : Nat) (fields : List Field) :
    DecodedFields.at n (fields.map fun field => (field.number, dataOf field.value)) =
      (valuesAt n fields).map dataOf := by
  simp only [DecodedFields.at, valuesAt, filterMap_map, map_filterMap]
  congr
  funext field
  by_cases h : field.number = n <;> simp [h]

end Fields

section Getters
variable {lossy : Bytes → String} {decoded : DecodedFields} {values : List Value} {n : Nat}
  (h : decoded.at n = values.map dataOf)
include h

theorem getString_spelled {s : String} (hspells : Spells (.bytes (utf8 s)) (.bytes []) values) :
    getString lossy decoded n = s := by
  rcases hspells with rfl | ⟨rfl, hdefault⟩
  · simp [getString, h, dataOf, toText]
  · rw [Protobuf.utf8_eq_nil_iff.mp (Value.bytes.inj hdefault)]
    simp [getString, h]

theorem getBytes_spelled {data : Bytes} (hspells : Spells (.bytes data) (.bytes []) values) :
    getBytes decoded n = data := by
  rcases hspells with rfl | ⟨rfl, hdefault⟩
  · simp [getBytes, h, dataOf]
  · rw [Value.bytes.inj hdefault]
    simp [getBytes, h]

theorem getUint32_spelled {v : UInt64} (hspells : Spells (.varint v) (.varint 0) values) :
    getUint32 decoded n = numberOf v.toNat := by
  rcases hspells with rfl | ⟨rfl, hdefault⟩
  · simp [getUint32, h, dataOf]
  · rw [Value.varint.inj hdefault]
    simp [getUint32, h, numberOf]

theorem getInt64_spelled {v : UInt64} (hspells : Spells (.varint v) (.varint 0) values) :
    getInt64 decoded n = numberOf v.toNat := getUint32_spelled h hspells

end Getters

def putEntry (result : StringMap) (pair : String × String) : StringMap :=
  if pair.1 = "" then result else setProperty pair.1 pair.2 result

/-- A name that an object can hold as a property of its own and that the loop does not skip. -/
def Storable (key : String) : Prop := key ≠ "" ∧ key ≠ "__proto__"

instance (key : String) : Decidable (Storable key) := inferInstanceAs (Decidable (_ ∧ _))

theorem putEntry_eq (result : StringMap) (pair : String × String) :
    putEntry result pair = if Storable pair.1 then result.insert pair else result := by
  unfold putEntry setProperty Storable
  by_cases hempty : pair.1 = ""
  · simp [hempty]
  · by_cases hproto : pair.1 = "__proto__"
    · simp [hproto]
    · simp [hempty, hproto]

theorem collect_entries {lossy : Bytes → String} {written : List ((String × String) × List Field)}
    (hentries : ∀ entry ∈ written, EncodesEntry entry.1 entry.2)
    (hlength : ∀ entry ∈ written, (encode entry.2).length < 2 ^ 53) (result : StringMap) :
    collect lossy (written.map fun entry => .buffer (encode entry.2)) result =
      .ok ((written.map Prod.fst).foldl putEntry result) := by
  induction written generalizing result with
  | nil => rfl
  | cons entry rest ih =>
    have hentry := hentries entry mem_cons_self
    have hdecode := decodeFields_encode hentry.plain (hlength entry mem_cons_self)
    have hkey := @getString_spelled lossy _ _ 1 (at_map 1 entry.2) _ hentry.key
    have hvalue := @getString_spelled lossy _ _ 2 (at_map 2 entry.2) _ hentry.value
    have hrest := ih (fun other hmem => hentries other (mem_cons_of_mem _ hmem))
      (fun other hmem => hlength other (mem_cons_of_mem _ hmem)) (putEntry result entry.1)
    rw [map_cons, collect, hdecode]
    simp only [bind, Except.bind, hkey, hvalue]
    exact hrest

theorem find?_foldl_putEntry {headers : StringMap} {pairs : List (String × String)}
    (hperm : pairs.Perm headers.entries) (key : String) :
    (pairs.foldl putEntry ∅).find? key = if Storable key then headers.find? key else none := by
  have hnodup : (pairs.map Prod.fst).Nodup := (hperm.map Prod.fst).nodup_iff.mpr headers.nodup
  have hstep (result : StringMap) (pair : String × String) (_ : True) :
      (putEntry result pair).find? key =
        if pair.1 = key then (if Storable pair.1 then some pair else none).or (result.find? key)
        else result.find? key := by
    rw [putEntry_eq]
    by_cases hstore : Storable pair.1
    · rw [if_pos hstore, if_pos hstore, find?_insert, Option.some_or]
      exact if_congr eq_comm rfl rfl
    · rw [if_neg hstore, if_neg hstore, Option.none_or, ite_self]
  have hfind : (pairs.find? fun pair => pair.1 = key) = headers.find? key := by
    ext pair
    rw [find?_eq_some_iff_of_nodup hnodup, hperm.mem_iff, find?_eq_some_iff]
  rw [foldl_lookup putEntry (fun result => result.find? key)
    (fun pair => if Storable pair.1 then some pair else none) (fun _ => True) (fun _ _ h => h) hstep
    hnodup trivial, hfind, find?_empty, Option.or_none]
  cases hheader : headers.find? key with
  | none => rw [Option.bind_none, ite_self]
  | some pair => rw [Option.bind_some, (find?_eq_some_iff.mp hheader).2]

structure QMessage.Agrees (message : QMessage) (msg : Protocol.Message) : Prop where
  messageId : message.messageId = msg.messageId
  queue : message.queue = msg.queue
  payload : message.payload = msg.payload
  headers : ∀ key, message.headers.find? key = msg.headers.find? key
  attempt : message.attempt = msg.attempt.toNat
  publishedAt : message.publishedAt = msg.publishedAt.toInt

section Message
variable {lossy : Bytes → String} {msg : Protocol.Message} {fields : List Field}

theorem length_written {written : List ((String × String) × List Field)} {n : Nat}
    (hvalues : valuesAt n fields = written.map fun entry => .bytes (encode entry.2))
    (hlength : (encode fields).length < 2 ^ 53) :
    ∀ entry ∈ written, (encode entry.2).length < 2 ^ 53 := by
  intro entry hmem
  have hvalue : Value.bytes (encode entry.2) ∈ valuesAt n fields := by
    rw [hvalues]
    exact mem_map.mpr ⟨entry, hmem, rfl⟩
  obtain ⟨field, hfield, hfound⟩ := mem_filterMap.mp hvalue
  split at hfound
  · have hle := Protobuf.length_le_encode (show ⟨field.number, .bytes (encode entry.2)⟩ ∈ fields by
      rw [← Option.some.inj hfound]
      exact hfield)
    omega
  · cases hfound

theorem numberOf_toUInt64 {x : Int64} (h : x.toInt < 2 ^ 53) :
    (numberOf x.toUInt64.toNat : Int) = x.toInt ↔ 0 ≤ x.toInt := by
  have hcond : x.toInt = if 2 * x.toUInt64.toNat < 2 ^ 64 then (x.toUInt64.toNat : Int)
      else (x.toUInt64.toNat : Int) - (2 ^ 64 : Nat) := BitVec.toInt_eq_toNat_cond x.toBitVec
  constructor
  · intro heq
    omega
  · intro hnonneg
    have hbound := x.toUInt64.toNat_lt
    have heq : (x.toUInt64.toNat : Int) = x.toInt := by
      split at hcond
      · exact hcond.symm
      · omega
    rw [numberOf_of_lt (by omega), heq]

theorem decodeMessage_encode (h : msg.EncodedBy fields) (hlength : (encode fields).length < 2 ^ 53) :
    ∃ pairs : List (String × String), pairs.Perm msg.headers.entries ∧ decodeMessage lossy (encode fields) =
      .ok ⟨msg.messageId, msg.queue, msg.payload, pairs.foldl putEntry ∅, msg.attempt.toNat,
        numberOf msg.publishedAt.toUInt64.toNat⟩ := by
  obtain ⟨written, hperm, hentries, hwritten⟩ := h.headers
  have hmap : getMap lossy (fields.map fun field => (field.number, dataOf field.value)) 4 =
      .ok ((written.map Prod.fst).foldl putEntry ∅) := by
    rw [getMap, at_map, hwritten, map_map]
    exact collect_entries hentries (length_written hwritten hlength) ∅
  have hattempt : numberOf msg.attempt.toUInt64.toNat = msg.attempt.toNat := by
    have hbound := msg.attempt.toNat_lt
    rw [UInt32.toNat_toUInt64, numberOf_of_lt (by omega)]
  refine ⟨written.map Prod.fst, hperm, ?_⟩
  simp only [decodeMessage, decodeFields_encode h.plain hlength, bind, Except.bind, hmap,
    getString_spelled (at_map 1 fields) h.messageId, getString_spelled (at_map 2 fields) h.queue,
    getBytes_spelled (at_map 3 fields) h.payload, getUint32_spelled (at_map 5 fields) h.attempt,
    getInt64_spelled (at_map 6 fields) h.publishedAt, hattempt]
  rfl

/-- The client reads a message as the broker wrote it if and only if its time of
publication is not negative and no header is named by the empty text or `__proto__`. -/
theorem decodeMessage_agrees_iff (h : msg.EncodedBy fields)
    (hlength : (encode fields).length < 2 ^ 53) (hpublished : msg.publishedAt.toInt < 2 ^ 53) :
    (∃ message, decodeMessage lossy (encode fields) = .ok message ∧ message.Agrees msg) ↔
      0 ≤ msg.publishedAt.toInt ∧ msg.headers.find? "" = none ∧
        msg.headers.find? "__proto__" = none := by
  obtain ⟨pairs, hperm, hdecode⟩ := @decodeMessage_encode lossy _ _ h hlength
  constructor
  · rintro ⟨message, hmessage, hagrees⟩
    cases hdecode.symm.trans hmessage
    have hheaders (key : String) (hnot : ¬ Storable key) : msg.headers.find? key = none := by
      rw [← hagrees.headers key, find?_foldl_putEntry hperm, if_neg hnot]
    exact ⟨(numberOf_toUInt64 hpublished).mp hagrees.publishedAt, hheaders "" (by decide),
      hheaders "__proto__" (by decide)⟩
  · rintro ⟨hnonneg, hempty, hproto⟩
    refine ⟨_, hdecode, rfl, rfl, rfl, ?_, rfl, (numberOf_toUInt64 hpublished).mpr hnonneg⟩
    intro key
    rw [find?_foldl_putEntry hperm]
    by_cases hstore : Storable key
    · rw [if_pos hstore]
    · rw [if_neg hstore]
      rcases Decidable.not_and_iff_or_not.mp hstore with hkey | hkey
      · rw [Decidable.not_not.mp hkey, hempty]
      · rw [Decidable.not_not.mp hkey, hproto]

end Message

def oneHeader (key val : String) (publishedAt : Int64) : Protocol.Message :=
  ⟨"m", "jobs", [7], KeyedMap.insert ∅ (key, val), 1, publishedAt, ""⟩

theorem decodeMessage_agrees_trace :
    ∃ message, decodeMessage (fun _ => "")
        (Protocol.marshal ((oneHeader "trace" "" 1700000000000).fields [])) = .ok message ∧
      message.Agrees (oneHeader "trace" "" 1700000000000) :=
  (decodeMessage_agrees_iff (Protocol.Message.encodedBy_fields _ []) (by decide +kernel)
    (by decide +kernel)).mpr (by decide +kernel)

/-- A header without a name and one named `__proto__` are lost, and a time before 1970
becomes one far in the future. -/
theorem decodeMessage_disagrees :
    decodeMessage (fun _ => "") (Protocol.marshal ((oneHeader "" "v" 5).fields [])) =
        .ok ⟨"m", "jobs", [7], ∅, 1, 5⟩ ∧
      (oneHeader "" "v" 5).headers.find? "" = some ("", "v") ∧
    decodeMessage (fun _ => "") (Protocol.marshal ((oneHeader "__proto__" "v" 5).fields [])) =
        .ok ⟨"m", "jobs", [7], ∅, 1, 5⟩ ∧
      (oneHeader "__proto__" "v" 5).headers.find? "__proto__" = some ("__proto__", "v") ∧
    decodeMessage (fun _ => "") (Protocol.marshal ((oneHeader "k" "v" (-1)).fields [])) =
        .ok ⟨"m", "jobs", [7], KeyedMap.insert ∅ ("k", "v"), 1, 2 ^ 64⟩ ∧
      (oneHeader "k" "v" (-1)).publishedAt.toInt = -1 := by
  refine ⟨?_, ?_, ?_, ?_, ?_, ?_⟩ <;> decide +kernel

end QwerQ.TypeScript
