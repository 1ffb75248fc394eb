import QwerQ.Library.Varint
import QwerQ.Library.KeyedMap

/-! The wire format of protocol buffers: a message is a sequence of numbered fields. A
reader takes the last occurrence of a field that is not repeated, the default if there
is none, and passes over fields whose number or wire type it does not expect. Groups,
which proto3 does not have, are refused. -/
namespace Protobuf
open List Option Varint

abbrev Bytes := List UInt8

inductive Value where
  | varint (value : UInt64)
  | fixed64 (data : Bytes)
  | bytes (data : Bytes)
  | fixed32 (data : Bytes)
  deriving DecidableEq, Repr

structure Field where
  number : Nat
  value : Value
  deriving DecidableEq, Repr

def utf8 (s : String) : Bytes := s.toUTF8.data.toList

def ofUtf8? (data : Bytes) : Option String := String.fromUTF8? ⟨data.toArray⟩

@[simp] theorem ofUtf8?_utf8 (s : String) : ofUtf8? (utf8 s) = some s := by
  have hdata : (⟨(utf8 s).toArray⟩ : ByteArray) = s.toByteArray := by
    rw [utf8, Array.toArray_toList]
    rfl
  rw [ofUtf8?, hdata, String.fromUTF8?, dif_pos s.isValidUTF8]
  rfl

@[simp] theorem utf8_empty : utf8 "" = [] := rfl

theorem utf8_eq_nil_iff {s : String} : utf8 s = [] ↔ s = "" := by
  constructor
  · intro h
    have hread := ofUtf8?_utf8 s
    rw [h, ← utf8_empty, ofUtf8?_utf8] at hread
    exact (Option.some.inj hread).symm
  · rintro rfl
    rfl

def tag (number wireType : Nat) : Bytes := Varint.encode (.ofNat (8 * number + wireType))

def Field.encode (field : Field) : Bytes :=
  match field.value with
  | .varint value => tag field.number 0 ++ Varint.encode value
  | .fixed64 data => tag field.number 1 ++ data
  | .bytes data => tag field.number 2 ++ Varint.encode (.ofNat data.length) ++ data
  | .fixed32 data => tag field.number 5 ++ data

def encode (fields : List Field) : Bytes := fields.flatMap Field.encode

@[simp] theorem encode_nil : encode [] = [] := rfl

@[simp] theorem encode_cons (field : Field) (fields : List Field) :
    encode (field :: fields) = field.encode ++ encode fields := rfl

@[simp] theorem encode_append (left right : List Field) :
    encode (left ++ right) = encode left ++ encode right := flatMap_append

/-- Fields at their default are left out. -/
def bytesField (number : Nat) (data : Bytes) : List Field :=
  if data = [] then [] else [⟨number, .bytes data⟩]

def stringField (number : Nat) (s : String) : List Field := bytesField number (utf8 s)

def varintField (number : Nat) (value : UInt64) : List Field :=
  if value = 0 then [] else [⟨number, .varint value⟩]

def optionalField (number : Nat) : Option String → List Field
  | none => []
  | some s => [⟨number, .bytes (utf8 s)⟩]

/-- An entry of a map is a message of its own, with the key and the value. -/
def mapField (number : Nat) (entry : String × String → List Field)
    (entries : List (String × String)) : List Field :=
  entries.map fun pair => ⟨number, .bytes (encode (entry pair))⟩

def fullEntry (pair : String × String) : List Field :=
  [⟨1, .bytes (utf8 pair.1)⟩, ⟨2, .bytes (utf8 pair.2)⟩]

def sparseEntry (pair : String × String) : List Field :=
  stringField 1 pair.1 ++ stringField 2 pair.2

def readVarint (data : Bytes) : Option (UInt64 × Bytes) :=
  let (value, n) := Varint.decode data
  if n ≤ 0 then none else some (value, data.drop n.toNat)

def readBytes (n : Nat) (data : Bytes) : Option (Bytes × Bytes) :=
  if n ≤ data.length then some (data.take n, data.drop n) else none

def readValue (wireType : Nat) (data : Bytes) : Option (Value × Bytes) := do
  match wireType with
  | 0 =>
      let (value, data) ← readVarint data
      return (.varint value, data)
  | 1 =>
      let (value, data) ← readBytes 8 data
      return (.fixed64 value, data)
  | 2 =>
      let (length, data) ← readVarint data
      let (value, data) ← readBytes length.toNat data
      return (.bytes value, data)
  | 5 =>
      let (value, data) ← readBytes 4 data
      return (.fixed32 value, data)
  | _ => none

def maxNumber : Nat := 2 ^ 29 - 1

def readField (data : Bytes) : Option (Field × Bytes) := do
  let (tag, data) ← readVarint data
  let number := tag.toNat / 8
  if number = 0 ∨ maxNumber < number then none
  else
    let (value, data) ← readValue (tag.toNat % 8) data
    return (⟨number, value⟩, data)

/-- Every field takes a byte, so the length of the data bounds the rounds. -/
def readFields : Nat → Bytes → Option (List Field)
  | 0, data => if data = [] then some [] else none
  | rounds + 1, data =>
      if data = [] then some []
      else do
        let (field, data) ← readField data
        let fields ← readFields rounds data
        return field :: fields

def decode (data : Bytes) : Option (List Field) := readFields data.length data

def Value.bytes? : Value → Option Bytes
  | .bytes data => some data
  | _ => none

def Value.varint? : Value → Option UInt64
  | .varint value => some value
  | _ => none

def bytesAt (number : Nat) (fields : List Field) : List Bytes :=
  fields.filterMap fun field => if field.number = number then field.value.bytes? else none

def varintsAt (number : Nat) (fields : List Field) : List UInt64 :=
  fields.filterMap fun field => if field.number = number then field.value.varint? else none

def getBytes (number : Nat) (fields : List Field) : Bytes := (bytesAt number fields).getLast?.getD []

def getOptional (number : Nat) (fields : List Field) : Option (Option String) := do
  let texts ← (bytesAt number fields).mapM ofUtf8?
  return texts.getLast?

def getString (number : Nat) (fields : List Field) : Option String := do
  return (← getOptional number fields).getD ""

def getUint64 (number : Nat) (fields : List Field) : UInt64 :=
  (varintsAt number fields).getLast?.getD 0

def getUint32 (number : Nat) (fields : List Field) : UInt32 := (getUint64 number fields).toUInt32

def getBool (number : Nat) (fields : List Field) : Bool := getUint64 number fields ≠ 0

def getInt64 (number : Nat) (fields : List Field) : Int64 := (getUint64 number fields).toInt64

def readEntry (data : Bytes) : Option (String × String) := do
  let fields ← decode data
  return (← getString 1 fields, ← getString 2 fields)

abbrev TextMap := KeyedMap (Prod.fst : String × String → String)

def getMap (number : Nat) (fields : List Field) : Option TextMap := do
  let entries ← (bytesAt number fields).mapM readEntry
  return entries.foldl KeyedMap.insert ∅

theorem readVarint_encode (value : UInt64) (rest : Bytes) :
    readVarint (Varint.encode value ++ rest) = some (value, rest) := by
  have hpos := length_encode_pos value
  simp only [readVarint, decode_encode]
  rw [if_neg (by omega), Int.toNat_natCast, drop_left]

theorem readBytes_append (data rest : Bytes) :
    readBytes data.length (data ++ rest) = some (data, rest) := by
  rw [readBytes, if_pos (by simp), take_left, drop_left]

/-- The number is one a field can have, and the value has the size of its wire type. -/
structure Field.Valid (field : Field) : Prop where
  number : field.number ≠ 0 ∧ field.number ≤ maxNumber
  value : match field.value with
    | .varint _ => True
    | .fixed64 data => data.length = 8
    | .bytes data => data.length < 2 ^ 64
    | .fixed32 data => data.length = 4

theorem readVarint_tag {number wireType : Nat} (hnumber : number ≤ maxNumber) (htype : wireType < 8)
    (rest : Bytes) : ∃ tagged : UInt64, readVarint (tag number wireType ++ rest) = some (tagged, rest) ∧
      tagged.toNat / 8 = number ∧ tagged.toNat % 8 = wireType := by
  have hmax : maxNumber = 536870911 := rfl
  refine ⟨_, readVarint_encode _ _, ?_⟩
  rw [UInt64.toNat_ofNat', Nat.mod_eq_of_lt (by omega)]
  omega

theorem readField_encode {field : Field} (h : field.Valid) (rest : Bytes) :
    readField (field.encode ++ rest) = some (field, rest) := by
  obtain ⟨number, value⟩ := field
  have ⟨hnumber, hvalue⟩ := h
  have hnot : ¬(number = 0 ∨ maxNumber < number) := by
    dsimp only at hnumber
    omega
  cases value with
  | varint value =>
    have ⟨tagged, hread, hdiv, hmod⟩ := readVarint_tag hnumber.2 (show 0 < 8 by decide)
      (Varint.encode value ++ rest)
    simp only [Field.encode, append_assoc, readField, hread, bind_eq_bind,
      bind_some, hdiv, hmod, if_neg hnot, readValue, readVarint_encode]
    rfl
  | fixed64 data =>
    have ⟨tagged, hread, hdiv, hmod⟩ := readVarint_tag hnumber.2 (show 1 < 8 by decide) (data ++ rest)
    have hbytes := readBytes_append data rest
    rw [show data.length = 8 from hvalue] at hbytes
    simp only [Field.encode, append_assoc, readField, hread, bind_eq_bind,
      bind_some, hdiv, hmod, if_neg hnot, readValue, hbytes]
    rfl
  | bytes data =>
    have ⟨tagged, hread, hdiv, hmod⟩ := readVarint_tag hnumber.2 (show 2 < 8 by decide)
      (Varint.encode (.ofNat data.length) ++ (data ++ rest))
    have hlength : (UInt64.ofNat data.length).toNat = data.length := by
      rw [UInt64.toNat_ofNat']
      exact Nat.mod_eq_of_lt hvalue
    simp only [Field.encode, append_assoc, readField, hread, bind_eq_bind,
      bind_some, hdiv, hmod, if_neg hnot, readValue, readVarint_encode, hlength,
      readBytes_append]
    rfl
  | fixed32 data =>
    have ⟨tagged, hread, hdiv, hmod⟩ := readVarint_tag hnumber.2 (show 5 < 8 by decide) (data ++ rest)
    have hbytes := readBytes_append data rest
    rw [show data.length = 4 from hvalue] at hbytes
    simp only [Field.encode, append_assoc, readField, hread, bind_eq_bind,
      bind_some, hdiv, hmod, if_neg hnot, readValue, hbytes]
    rfl

theorem Field.length_encode_pos (field : Field) : 0 < field.encode.length := by
  have hpos (wireType : Nat) (rest : Bytes) : 0 < (tag field.number wireType ++ rest).length := by
    rw [length_append]
    exact Nat.add_pos_left (Varint.length_encode_pos _) _
  unfold Field.encode
  split
  · exact hpos 0 _
  · exact hpos 1 _
  · rw [append_assoc]
    exact hpos 2 _
  · exact hpos 5 _

theorem readFields_encode {fields : List Field} {rounds : Nat} (h : ∀ field ∈ fields, field.Valid)
    (hrounds : (encode fields).length ≤ rounds) : readFields rounds (encode fields) = some fields := by
  induction fields generalizing rounds with
  | nil => cases rounds <;> rfl
  | cons field fields ih =>
    have hpos := field.length_encode_pos
    rw [encode_cons, length_append] at hrounds
    cases rounds with
    | zero => omega
    | succ rounds =>
      have hsome : field.encode ++ encode fields ≠ [] := by
        intro hnil
        rw [(append_eq_nil_iff.mp hnil).1] at hpos
        exact absurd hpos (by decide)
      have hrest := ih (fun other hmem => h other (mem_cons_of_mem _ hmem))
        (show (encode fields).length ≤ rounds by omega)
      rw [encode_cons, readFields, if_neg hsome]
      simp only [readField_encode (h field mem_cons_self), hrest, bind_eq_bind,
        bind_some]
      rfl

theorem decode_encode {fields : List Field} (h : ∀ field ∈ fields, field.Valid) :
    decode (encode fields) = some fields := readFields_encode h (Nat.le_refl _)

variable {text : Option String} {entry : String × String → List Field}
  {entries : List (String × String)} {pair : String × String}

section Occurrences
variable {n m : Nat} {data : Bytes} {value : UInt64} {s : String} {fields : List Field}

@[simp] theorem bytesAt_nil : bytesAt m [] = [] := rfl

@[simp] theorem varintsAt_nil : varintsAt m [] = [] := rfl

@[simp] theorem bytesAt_append (left right : List Field) :
    bytesAt m (left ++ right) = bytesAt m left ++ bytesAt m right := filterMap_append

@[simp] theorem varintsAt_append (left right : List Field) :
    varintsAt m (left ++ right) = varintsAt m left ++ varintsAt m right := filterMap_append

@[simp] theorem bytesAt_bytes_cons :
    bytesAt m (⟨n, .bytes data⟩ :: fields) =
      if n = m then data :: bytesAt m fields else bytesAt m fields := by
  rw [bytesAt, filterMap_cons]
  split <;> simp_all [Value.bytes?, bytesAt]

@[simp] theorem varintsAt_bytes_cons :
    varintsAt m (⟨n, .bytes data⟩ :: fields) = varintsAt m fields := by
  simp [varintsAt, Value.varint?]

theorem bytesAt_of_ne (hnumber : ∀ field ∈ fields, field.number = n) (hne : n ≠ m) :
    bytesAt m fields = [] := by
  refine filterMap_eq_nil_iff.mpr fun field hmem => if_neg ?_
  rw [hnumber field hmem]
  exact hne

theorem varintsAt_of_ne (hnumber : ∀ field ∈ fields, field.number = n) (hne : n ≠ m) :
    varintsAt m fields = [] := by
  refine filterMap_eq_nil_iff.mpr fun field hmem => if_neg ?_
  rw [hnumber field hmem]
  exact hne

theorem number_bytesField : ∀ field ∈ bytesField n data, field.number = n := by
  unfold bytesField
  split <;> simp

theorem number_varintField : ∀ field ∈ varintField n value, field.number = n := by
  unfold varintField
  split <;> simp

theorem number_optionalField :
    ∀ field ∈ optionalField n text, field.number = n := by
  cases text <;> simp [optionalField]

theorem number_mapField :
    ∀ field ∈ mapField n entry entries, field.number = n := by
  intro field hmem
  obtain ⟨pair, _, rfl⟩ := mem_map.mp hmem
  rfl

@[simp] theorem bytesAt_bytesField_ne (h : n ≠ m) : bytesAt m (bytesField n data) = [] :=
  bytesAt_of_ne number_bytesField h

@[simp] theorem bytesAt_stringField_ne (h : n ≠ m) : bytesAt m (stringField n s) = [] :=
  bytesAt_of_ne number_bytesField h

@[simp] theorem bytesAt_varintField : bytesAt m (varintField n value) = [] := by
  unfold varintField
  split <;> simp [bytesAt, Value.bytes?]

@[simp] theorem varintsAt_varintField_ne (h : n ≠ m) : varintsAt m (varintField n value) = [] :=
  varintsAt_of_ne number_varintField h

@[simp] theorem bytesAt_optionalField_ne (h : n ≠ m) :
    bytesAt m (optionalField n text) = [] :=
  bytesAt_of_ne number_optionalField h

@[simp] theorem bytesAt_mapField_ne (h : n ≠ m) : bytesAt m (mapField n entry entries) = [] :=
  bytesAt_of_ne number_mapField h

@[simp] theorem varintsAt_bytesField : varintsAt m (bytesField n data) = [] := by
  unfold bytesField
  split <;> simp [varintsAt, Value.varint?]

@[simp] theorem varintsAt_stringField : varintsAt m (stringField n s) = [] := varintsAt_bytesField

@[simp] theorem varintsAt_optionalField :
    varintsAt m (optionalField n text) = [] := by
  cases text <;> simp [optionalField]

@[simp] theorem varintsAt_mapField : varintsAt m (mapField n entry entries) = [] := by
  simp [varintsAt, mapField, Value.varint?]

theorem getBytes_of (h : bytesAt n fields = bytesAt n (bytesField n data)) :
    getBytes n fields = data := by
  rw [getBytes, h, bytesField]
  split
  · rename_i hempty
    exact hempty.symm
  · simp [bytesAt, Value.bytes?]

theorem getString_of (h : bytesAt n fields = bytesAt n (stringField n s)) :
    getString n fields = some s := by
  rw [getString, getOptional, h, stringField, bytesField]
  split
  · rename_i hempty
    rw [utf8_eq_nil_iff.mp hempty]
    rfl
  · simp [bytesAt, Value.bytes?]

theorem getString_single (h : bytesAt n fields = [utf8 s]) : getString n fields = some s := by
  rw [getString, getOptional, h]
  simp

theorem getOptional_of
    (h : bytesAt n fields = bytesAt n (optionalField n text)) : getOptional n fields = some text := by
  rw [getOptional, h]
  cases text <;> simp [optionalField]

theorem getOptional_of_nil (h : bytesAt n fields = []) : getOptional n fields = some none :=
  getOptional_of h

theorem getUint64_of (h : varintsAt n fields = varintsAt n (varintField n value)) :
    getUint64 n fields = value := by
  rw [getUint64, h, varintField]
  split
  · rename_i hzero
    exact hzero.symm
  · simp [varintsAt, Value.varint?]

theorem getUint32_of {value : UInt32}
    (h : varintsAt n fields = varintsAt n (varintField n value.toUInt64)) :
    getUint32 n fields = value := by
  rw [getUint32, getUint64_of h]
  simp

theorem mapM_map {read : β → Option α} {write : α → β} {values : List α}
    (h : ∀ value ∈ values, read (write value) = some value) :
    (values.map write).mapM read = some values := by
  induction values with
  | nil => rfl
  | cons value rest ih =>
    have hrest := ih fun other hmem => h other (mem_cons_of_mem _ hmem)
    rw [map_cons, mapM_cons, h value mem_cons_self, hrest]
    rfl

theorem getMap_of (h : bytesAt n fields = bytesAt n (mapField n entry entries))
    (hentry : ∀ pair ∈ entries, readEntry (encode (entry pair)) = some pair) :
    getMap n fields = some (entries.foldl KeyedMap.insert ∅) := by
  have hbytes : bytesAt n (mapField n entry entries) =
      entries.map fun pair => encode (entry pair) := by
    simp [bytesAt, mapField, Value.bytes?]
  rw [getMap, h, hbytes, mapM_map hentry]
  rfl

end Occurrences

/-- Fields that are varints or delimited. -/
def Plain (fields : List Field) : Prop :=
  ∀ field ∈ fields, (field.number ≠ 0 ∧ field.number ≤ maxNumber) ∧
    ((∃ value, field.value = .varint value) ∨ ∃ data, field.value = .bytes data)

section Plain
variable {n : Nat} {fields : List Field}

@[simp] theorem plain_nil : Plain [] := nofun

@[simp] theorem plain_append {left right : List Field} :
    Plain (left ++ right) ↔ Plain left ∧ Plain right := forall_mem_append

@[simp] theorem plain_cons_bytes (hn : n ≠ 0 ∧ n ≤ maxNumber) (data : Bytes) :
    Plain (⟨n, .bytes data⟩ :: fields) ↔ Plain fields := by
  rw [Plain, forall_mem_cons]
  exact and_iff_right ⟨hn, .inr ⟨data, rfl⟩⟩

@[simp] theorem plain_bytesField (hn : n ≠ 0 ∧ n ≤ maxNumber) (data : Bytes) :
    Plain (bytesField n data) := by
  unfold bytesField
  split
  · exact plain_nil
  · exact (plain_cons_bytes hn data).mpr plain_nil

@[simp] theorem plain_stringField (hn : n ≠ 0 ∧ n ≤ maxNumber) (s : String) :
    Plain (stringField n s) := plain_bytesField hn (utf8 s)

@[simp] theorem plain_varintField (hn : n ≠ 0 ∧ n ≤ maxNumber) (value : UInt64) :
    Plain (varintField n value) := by
  unfold varintField
  split
  · exact plain_nil
  · intro field hmem
    rw [mem_singleton.mp hmem]
    exact ⟨hn, .inl ⟨value, rfl⟩⟩

@[simp] theorem plain_optionalField (hn : n ≠ 0 ∧ n ≤ maxNumber) (text : Option String) :
    Plain (optionalField n text) := by
  cases text with
  | none => exact plain_nil
  | some s => exact (plain_cons_bytes hn (utf8 s)).mpr plain_nil

@[simp] theorem plain_mapField (hn : n ≠ 0 ∧ n ≤ maxNumber) (entry : String × String → List Field)
    (entries : List (String × String)) : Plain (mapField n entry entries) := by
  intro field hmem
  obtain ⟨pair, _, rfl⟩ := mem_map.mp hmem
  exact ⟨hn, .inr ⟨_, rfl⟩⟩

theorem length_le_encode {data : Bytes} (h : ⟨n, .bytes data⟩ ∈ fields) :
    data.length ≤ (encode fields).length := by
  induction fields with
  | nil => cases h
  | cons field rest ih =>
    rw [encode_cons, length_append]
    rcases mem_cons.mp h with rfl | hrest
    · simp only [Field.encode, length_append]
      omega
    · exact Nat.le_add_left_of_le (ih hrest)

theorem decode_plain (h : Plain fields) (hlength : (encode fields).length < 2 ^ 64) :
    decode (encode fields) = some fields := by
  refine decode_encode fun field hmem => ⟨(h field hmem).1, ?_⟩
  obtain ⟨number, value⟩ := field
  rcases (h _ hmem).2 with ⟨value, rfl⟩ | ⟨data, rfl⟩
  · trivial
  · exact Nat.lt_of_le_of_lt (length_le_encode hmem) hlength

theorem read_plain {read : List Field → Option α} {value : α} (h : Plain fields)
    (hlength : (encode fields).length < 2 ^ 64) (hread : read fields = some value) :
    (decode (encode fields) >>= read) = some value := by
  rw [decode_plain h hlength]
  exact hread

theorem readEntry_sparse (hlength : (encode (sparseEntry pair)).length < 2 ^ 64) :
    readEntry (encode (sparseEntry pair)) = some pair := by
  have hkey : getString 1 (sparseEntry pair) = some pair.1 := getString_of (by simp [sparseEntry])
  have hvalue : getString 2 (sparseEntry pair) = some pair.2 := getString_of (by simp [sparseEntry])
  refine read_plain (by simp [sparseEntry, maxNumber]) hlength ?_
  rw [hkey, hvalue]
  rfl

theorem readEntry_full (hlength : (encode (fullEntry pair)).length < 2 ^ 64) :
    readEntry (encode (fullEntry pair)) = some pair := by
  have hkey : getString 1 (fullEntry pair) = some pair.1 := getString_single rfl
  have hvalue : getString 2 (fullEntry pair) = some pair.2 := getString_single rfl
  refine read_plain (by simp [fullEntry, maxNumber]) hlength ?_
  rw [hkey, hvalue]
  rfl

theorem length_entry (hmem : pair ∈ entries) (hsub : mapField n entry entries ⊆ fields)
    (hlength : (encode fields).length < 2 ^ 64) : (encode (entry pair)).length < 2 ^ 64 :=
  Nat.lt_of_le_of_lt (length_le_encode (hsub (mem_map.mpr ⟨pair, hmem, rfl⟩))) hlength

end Plain

def valuesAt (number : Nat) (fields : List Field) : List Value :=
  fields.filterMap fun field => if field.number = number then some field.value else none

/-- A field that is not repeated is written once, or left out at its default. -/
def Spells (value default : Value) (values : List Value) : Prop :=
  values = [value] ∨ values = [] ∧ value = default

structure EncodesEntry (pair : String × String) (fields : List Field) : Prop where
  plain : Plain fields
  key : Spells (.bytes (utf8 pair.1)) (.bytes []) (valuesAt 1 fields)
  value : Spells (.bytes (utf8 pair.2)) (.bytes []) (valuesAt 2 fields)

/-- The entries of a map may be written in any order. -/
def EncodesMap (number : Nat) (entries : List (String × String)) (fields : List Field) : Prop :=
  ∃ written : List ((String × String) × List Field), (written.map Prod.fst).Perm entries ∧
    (∀ entry ∈ written, EncodesEntry entry.1 entry.2) ∧
    valuesAt number fields = written.map fun entry => .bytes (encode entry.2)

section AnyOrder
variable {n m : Nat} {fields : List Field}

@[simp] theorem valuesAt_nil : valuesAt m [] = [] := rfl

@[simp] theorem valuesAt_append (left right : List Field) :
    valuesAt m (left ++ right) = valuesAt m left ++ valuesAt m right := filterMap_append

theorem valuesAt_of_ne (hnumber : ∀ field ∈ fields, field.number = n) (hne : n ≠ m) :
    valuesAt m fields = [] := by
  refine filterMap_eq_nil_iff.mpr fun field hmem => if_neg ?_
  rw [hnumber field hmem]
  exact hne

@[simp] theorem valuesAt_bytesField_ne (data : Bytes) (h : n ≠ m) :
    valuesAt m (bytesField n data) = [] := valuesAt_of_ne number_bytesField h

@[simp] theorem valuesAt_stringField_ne (s : String) (h : n ≠ m) :
    valuesAt m (stringField n s) = [] := valuesAt_of_ne number_bytesField h

@[simp] theorem valuesAt_varintField_ne (value : UInt64) (h : n ≠ m) :
    valuesAt m (varintField n value) = [] := valuesAt_of_ne number_varintField h

@[simp] theorem valuesAt_mapField_ne (entry : String × String → List Field)
    (entries : List (String × String)) (h : n ≠ m) : valuesAt m (mapField n entry entries) = [] :=
  valuesAt_of_ne number_mapField h

theorem spells_bytes {data : Bytes} (h : valuesAt n fields = valuesAt n (bytesField n data)) :
    Spells (.bytes data) (.bytes []) (valuesAt n fields) := by
  rw [h, bytesField]
  split
  · rename_i hempty
    exact .inr ⟨rfl, congrArg Value.bytes hempty⟩
  · exact .inl (by simp [valuesAt])

theorem spells_string {s : String} (h : valuesAt n fields = valuesAt n (stringField n s)) :
    Spells (.bytes (utf8 s)) (.bytes []) (valuesAt n fields) := spells_bytes h

theorem spells_varint {value : UInt64} (h : valuesAt n fields = valuesAt n (varintField n value)) :
    Spells (.varint value) (.varint 0) (valuesAt n fields) := by
  rw [h, varintField]
  split
  · rename_i hzero
    exact .inr ⟨rfl, congrArg Value.varint hzero⟩
  · exact .inl (by simp [valuesAt])

theorem encodesEntry_full (pair : String × String) : EncodesEntry pair (fullEntry pair) where
  plain := by simp [fullEntry, maxNumber]
  key := .inl rfl
  value := .inl rfl

theorem encodesMap_full (entries : List (String × String)) :
    EncodesMap n entries (mapField n fullEntry entries) := by
  refine ⟨entries.map fun pair => (pair, fullEntry pair), ?_, ?_, ?_⟩
  · rw [List.map_map]
    exact .of_eq (map_id entries)
  · intro entry hmem
    obtain ⟨pair, -, rfl⟩ := mem_map.mp hmem
    exact encodesEntry_full pair
  · simp [valuesAt, mapField]

end AnyOrder

def delimitedSize (length : Nat) : Nat := 1 + Varint.size (.ofNat length) + length

def bytesSize (data : Bytes) : Nat := if data = [] then 0 else delimitedSize data.length

def varintSize (value : UInt64) : Nat := if value = 0 then 0 else 1 + Varint.size value

def entrySize (pair : String × String) : Nat :=
  delimitedSize (utf8 pair.1).length + delimitedSize (utf8 pair.2).length

section Sizes
variable {n : Nat} (hn : n < 16)
include hn

theorem length_tag {wireType : Nat} (htype : wireType < 8) : (tag n wireType).length = 1 := by
  have hsmall : (UInt64.ofNat (8 * n + wireType)).toNat < 128 := by
    rw [UInt64.toNat_ofNat']
    omega
  rw [tag, length_encode, size_of_lt hsmall]

theorem length_encode_bytes (data : Bytes) :
    (Field.encode ⟨n, .bytes data⟩).length = delimitedSize data.length := by
  simp only [Field.encode, length_append, length_tag hn (show 2 < 8 by decide),
    length_encode, delimitedSize]

theorem length_encode_bytesField (data : Bytes) :
    (encode (bytesField n data)).length = bytesSize data := by
  unfold bytesField bytesSize
  split
  · rfl
  · rw [encode_cons, encode_nil, append_nil, length_encode_bytes hn]

theorem length_encode_stringField (s : String) :
    (encode (stringField n s)).length = bytesSize (utf8 s) := length_encode_bytesField hn (utf8 s)

theorem length_encode_varintField (value : UInt64) :
    (encode (varintField n value)).length = varintSize value := by
  unfold varintField varintSize
  split
  · rfl
  · simp only [encode_cons, encode_nil, append_nil, Field.encode, length_append,
      length_tag hn (show 0 < 8 by decide), length_encode]

theorem length_encode_mapField (entries : List (String × String)) :
    (encode (mapField n fullEntry entries)).length =
      (entries.map fun pair => delimitedSize (entrySize pair)).sum := by
  have hentry (pair : String × String) : (encode (fullEntry pair)).length = entrySize pair := by
    simp only [fullEntry, encode_cons, encode_nil, append_nil, length_append,
      length_encode_bytes (show 1 < 16 by decide), length_encode_bytes (show 2 < 16 by decide),
      entrySize]
  induction entries with
  | nil => rfl
  | cons pair rest ih =>
    rw [mapField] at ih
    rw [mapField, map_cons, encode_cons, length_append, ih, length_encode_bytes hn, hentry,
      map_cons, sum_cons]

end Sizes

end Protobuf
