import QwerQ.Protocol.Messages
import Mathlib.Tactic.Ring

/-! The protobuf encoder and decoder of the TypeScript client. A `Buffer` is its bytes
and a `bigint` a number; strings are well-formed, and an object used as a map is the
map of its own properties. -/
namespace QwerQ.TypeScript
open Varint
open Protobuf (Bytes utf8 ofUtf8?)

/-- The loop, for a value that is not negative. -/
def varintBytes (v : Nat) : Bytes :=
  if 0 < v / 128 then .ofNat (v % 128 + 128) :: varintBytes (v / 128) else [.ofNat (v % 128)]
termination_by v
decreasing_by omega

/-- A value below `-2 ^ 64` stays negative, and its lowest bits are all that is written. -/
def encodeVarint (value : Int) : Bytes :=
  let v := if value < 0 then value + 2 ^ 64 else value
  if v < 0 then [.ofNat (v % 128).toNat] else varintBytes v.toNat

def maxBytes : Nat := 10

/-- The loop at byte `count`. Input that ends early gives what there is. -/
def decodeVarintFrom : Bytes → Nat → Nat → Nat × Bytes
  | [], _, result => (result, [])
  | b :: rest, count, result =>
      if count = maxBytes then (result, b :: rest)
      else
        let result := result ||| (b &&& 0x7f).toNat <<< (7 * count)
        if b &&& 0x80 = 0 then (result, rest) else decodeVarintFrom rest (count + 1) result

def decodeVarint (buf : Bytes) : Nat × Bytes := decodeVarintFrom buf 0 0

/-- `Number(bigint)`: the nearest number of 53 bits, the even one of two. -/
def numberOf (v : Nat) : Nat :=
  if v < 2 ^ 53 then v
  else
    let unit := 2 ^ (v.log2 - 52)
    let q := v / unit
    let r := v % unit
    let q := if unit < 2 * r ∨ unit = 2 * r ∧ q % 2 = 1 then q + 1 else q
    q * unit

def encodeTag (fieldNumber wireType : Nat) : Bytes := encodeVarint (fieldNumber <<< 3 ||| wireType : Nat)

def encodeBytesField (fieldNumber : Nat) (value : Bytes) : Bytes :=
  if value = [] then [] else encodeTag fieldNumber 2 ++ encodeVarint value.length ++ value

def encodeStringField (fieldNumber : Nat) (value : String) : Bytes :=
  if value = "" then []
  else encodeTag fieldNumber 2 ++ encodeVarint (utf8 value).length ++ utf8 value

def encodeUint32Field (fieldNumber value : Nat) : Bytes :=
  if value = 0 then [] else encodeTag fieldNumber 0 ++ encodeVarint value

/-- `entries` are those of `Object.entries`. -/
def encodeMapField (fieldNumber : Nat) (entries : List (String × String)) : Bytes :=
  entries.flatMap fun (key, val) =>
    let entryData := encodeStringField 1 key ++ encodeStringField 2 val
    encodeTag fieldNumber 2 ++ encodeVarint entryData.length ++ entryData

def encodeOptionalStringField (fieldNumber : Nat) : Option String → Bytes
  | none => []
  | some value => if value = "" then [] else encodeStringField fieldNumber value

def encodeBoolField (fieldNumber : Nat) (value : Bool) : Bytes :=
  if value then encodeTag fieldNumber 0 ++ encodeVarint 1 else []

def encodeHeaders (fieldNumber : Nat) : Option StringMap → Bytes
  | none => []
  | some headers => encodeMapField fieldNumber headers.entries

def encodePublishRequest (queue : String) (payload : Bytes) (headers : Option StringMap)
    (messageId idempotencyKey : Option String) : Bytes :=
  encodeStringField 1 queue ++ encodeBytesField 2 payload ++ encodeHeaders 3 headers ++
    encodeOptionalStringField 4 messageId ++ encodeOptionalStringField 5 idempotencyKey

def encodeConsumeRequest (queue : String) (prefetch visibilityTimeout : Option Nat) : Bytes :=
  encodeStringField 1 queue ++ encodeUint32Field 2 (prefetch.getD 0) ++
    encodeUint32Field 3 (visibilityTimeout.getD 0)

def encodeAckRequest (messageId : String) : Bytes := encodeStringField 1 messageId

def encodeNackRequest (messageId : String) (requeue : Bool) : Bytes :=
  encodeStringField 1 messageId ++ encodeBoolField 2 requeue

def encodeExtendVisibilityRequest (messageId : String) (extensionSeconds : Nat) : Bytes :=
  encodeStringField 1 messageId ++ encodeUint32Field 2 extensionSeconds

def encodeCallRequest (queue : String) (payload : Bytes) (headers : Option StringMap)
    (timeoutMs : Option Nat) : Bytes :=
  encodeStringField 1 queue ++ encodeBytesField 2 payload ++ encodeHeaders 3 headers ++
    encodeUint32Field 4 (timeoutMs.getD 0)

def encodeSchemaRegisterRequest (queue : String) (descriptor : Bytes) (messageType : String) :
    Bytes :=
  encodeStringField 1 queue ++ encodeBytesField 2 descriptor ++ encodeStringField 3 messageType

inductive Data where
  | buffer (data : Bytes)
  | bigint (value : Nat)
  deriving DecidableEq, Repr

/-- `outOfRange` is what reading a number past the end of a buffer throws. -/
inductive DecodeError where
  | unsupportedWireType (wireType : Nat)
  | outOfRange
  deriving DecidableEq, Repr

def littleEndian : Bytes → Nat
  | [] => 0
  | b :: rest => b.toNat + 256 * littleEndian rest

def decodeData (wireType : Nat) (buf : Bytes) : Except DecodeError (Data × Bytes) :=
  match wireType with
  | 0 =>
      let (value, buf) := decodeVarint buf
      .ok (.bigint value, buf)
  | 2 =>
      let (length, buf) := decodeVarint buf
      let len := numberOf length
      .ok (.buffer (buf.take len), buf.drop len)
  | 5 => if buf.length < 4 then .error .outOfRange else .ok (.bigint (littleEndian (buf.take 4)), buf.drop 4)
  | 1 => if buf.length < 8 then .error .outOfRange else .ok (.bigint (littleEndian (buf.take 8)), buf.drop 8)
  | _ => .error (.unsupportedWireType wireType)

/-- The fields in the order in which they are found, each with its number. A round reads
a byte at least, so the length of the buffer bounds the rounds. -/
def decodeFieldsFrom : Nat → Bytes → Except DecodeError (List (Nat × Data))
  | 0, _ => .ok []
  | rounds + 1, buf =>
      if buf = [] then .ok []
      else do
        let (tagValue, buf) := decodeVarint buf
        let (data, buf) ← decodeData (tagValue % 8) buf
        let fields ← decodeFieldsFrom rounds buf
        return (numberOf (tagValue / 8), data) :: fields

abbrev DecodedFields := List (Nat × Data)

def decodeFields (buf : Bytes) : Except DecodeError DecodedFields := decodeFieldsFrom buf.length buf

def DecodedFields.at (fieldNumber : Nat) (fields : DecodedFields) : List Data :=
  fields.filterMap fun (number, data) => if number = fieldNumber then some data else none

/-- `toString("utf-8")`; `lossy` is what it makes of bytes that are not UTF-8. -/
def toText (lossy : Bytes → String) (data : Bytes) : String := (ofUtf8? data).getD (lossy data)

section Getters
variable (lossy : Bytes → String) (fields : DecodedFields) (fieldNumber : Nat)

def getString : String :=
  match fields.at fieldNumber with
  | .buffer data :: _ => toText lossy data
  | _ => ""

def getBytes : Bytes :=
  match fields.at fieldNumber with
  | .buffer data :: _ => data
  | _ => []

def getUint32 : Nat :=
  match fields.at fieldNumber with
  | .bigint value :: _ => numberOf value
  | _ => 0

def getInt64 : Nat :=
  match fields.at fieldNumber with
  | .bigint value :: _ => numberOf value
  | _ => 0

/-- `result[key] = val` on an object. To assign a string to `__proto__` does nothing. -/
def setProperty (key val : String) (result : StringMap) : StringMap :=
  if key = "__proto__" then result else result.insert (key, val)

def collect : List Data → StringMap → Except DecodeError StringMap
  | [], result => .ok result
  | .bigint _ :: entries, result => collect entries result
  | .buffer data :: entries, result => do
      let sub ← decodeFields data
      let key := getString lossy sub 1
      let val := getString lossy sub 2
      collect entries (if key = "" then result else setProperty key val result)

def getMap : Except DecodeError StringMap := collect lossy (fields.at fieldNumber) ∅

end Getters

structure QMessage where
  messageId : String
  queue : String
  payload : Bytes
  headers : StringMap
  attempt : Nat
  publishedAt : Int
  deriving DecidableEq

def decodeMessage (lossy : Bytes → String) (buf : Bytes) : Except DecodeError QMessage := do
  let fields ← decodeFields buf
  return {
    messageId := getString lossy fields 1
    queue := getString lossy fields 2
    payload := getBytes fields 3
    headers := ← getMap lossy fields 4
    attempt := getUint32 fields 5
    publishedAt := getInt64 fields 6 }

def decodeErrorResponse (lossy : Bytes → String) (buf : Bytes) : Except DecodeError (Nat × String) := do
  let fields ← decodeFields buf
  return (getUint32 fields 1, getString lossy fields 2)

theorem varintBytes_of_lt {v : Nat} (h : v < 128) : varintBytes v = [.ofNat v] := by
  rw [varintBytes, if_neg (by omega), Nat.mod_eq_of_lt h]

theorem varintBytes_of_le {v : Nat} (h : 128 ≤ v) :
    varintBytes v = .ofNat (v % 128 + 128) :: varintBytes (v / 128) := by
  rw [varintBytes, if_pos (by omega)]

theorem encodeVarint_natCast (v : Nat) : encodeVarint v = varintBytes v := by
  have hnot : ¬ (v : Int) < 0 := by omega
  simp only [encodeVarint, if_neg hnot, Int.toNat_natCast]

theorem varintBytes_eq_of_lt {n v : Nat} {x : UInt64} (hx : x.toNat = v) (hsmall : v < 128) :
    varintBytes v = Varint.encodeFrom n x := by
  rw [varintBytes_of_lt hsmall, encodeFrom_of_lt (hx ▸ hsmall)]
  congr 1
  apply UInt8.toNat_inj.mp
  rw [toNat_toUInt8_of_lt (hx ▸ hsmall), UInt8.toNat_ofNat', hx]
  omega

theorem varintBytes_eq_encodeFrom {n v : Nat} {x : UInt64} (hx : x.toNat = v)
    (hv : v < 2 ^ (7 * (n + 1))) : varintBytes v = Varint.encodeFrom n x := by
  induction n generalizing v x with
  | zero => exact varintBytes_eq_of_lt hx hv
  | succ n ih =>
    by_cases hsmall : v < 128
    · exact varintBytes_eq_of_lt hx hsmall
    · have hlarge : 128 ≤ x.toNat := by omega
      have hshift : (x >>> 7).toNat = v / 128 := by rw [toNat_shiftRight_seven, hx]
      have hpow : 2 ^ (7 * (n + 1 + 1)) = 2 ^ (7 * (n + 1)) * 128 := by
        rw [show 7 * (n + 1 + 1) = 7 * (n + 1) + 7 by omega, Nat.pow_add]
      rw [varintBytes_of_le (by omega), encodeFrom_of_le hlarge,
        ih hshift ((Nat.div_lt_iff_lt_mul (by decide)).mpr (hpow ▸ hv))]
      refine congrArg₂ List.cons ?_ rfl
      apply UInt8.toNat_inj.mp
      rw [toNat_continued, UInt8.toNat_ofNat', hx]
      omega

theorem encodeVarint_eq {v : Nat} (h : v < 2 ^ 64) : encodeVarint v = Varint.encode (.ofNat v) := by
  have hx : (UInt64.ofNat v).toNat = v := by
    rw [UInt64.toNat_ofNat']
    exact Nat.mod_eq_of_lt h
  rw [encodeVarint_natCast, Varint.encode]
  exact varintBytes_eq_encodeFrom hx (Nat.lt_trans h (by decide))

private theorem high_bit : ∀ b : Fin 256, b.val &&& 128 = 0 ↔ b.val < 128 := by
  decide +kernel

theorem and_high_iff (b : UInt8) : b &&& 0x80 = 0 ↔ b.toNat < 128 := by
  rw [← UInt8.toNat_inj, UInt8.toNat_and]
  exact high_bit ⟨b.toNat, b.toNat_lt⟩

theorem or_shift {result group shift : Nat} (h : result < 2 ^ shift) :
    result ||| group <<< shift = result + group * 2 ^ shift := by
  rw [Nat.shiftLeft_eq, Nat.or_comm, Nat.mul_comm, ← Nat.two_pow_add_eq_or_of_lt h, Nat.add_comm]

theorem decodeVarintFrom_varintBytes {v count result : Nat} (rest : Bytes)
    (hcount : count < maxBytes) (hv : v < 2 ^ (7 * (maxBytes - count)))
    (hresult : result < 2 ^ (7 * count)) :
    decodeVarintFrom (varintBytes v ++ rest) count result =
      (result + v * 2 ^ (7 * count), rest) := by
  unfold maxBytes at hcount hv
  induction hleft : 10 - count generalizing v count result with
  | zero => omega
  | succ left ih =>
    have hne : count ≠ maxBytes := Nat.ne_of_lt hcount
    by_cases hsmall : v < 128
    · have hbyte : (UInt8.ofNat v).toNat = v := by
        rw [UInt8.toNat_ofNat']
        omega
      have hlast : UInt8.ofNat v &&& 0x80 = 0 := by
        rw [and_high_iff, hbyte]
        exact hsmall
      have hlow : (UInt8.ofNat v &&& 0x7f).toNat = v := by
        rw [toNat_and_low, hbyte, Nat.mod_eq_of_lt hsmall]
      simp only [varintBytes_of_lt hsmall, List.singleton_append, decodeVarintFrom, if_neg hne,
        if_pos hlast, hlow, or_shift hresult]
    · have hbyte : (UInt8.ofNat (v % 128 + 128)).toNat = v % 128 + 128 := by
        rw [UInt8.toNat_ofNat']
        omega
      have hmore : ¬ UInt8.ofNat (v % 128 + 128) &&& 0x80 = 0 := by
        rw [and_high_iff, hbyte]
        omega
      have hlow : (UInt8.ofNat (v % 128 + 128) &&& 0x7f).toNat = v % 128 := by
        rw [toNat_and_low, hbyte]
        omega
      have hpow : 2 ^ (7 * (count + 1)) = 2 ^ (7 * count) * 128 := by
        rw [show 7 * (count + 1) = 7 * count + 7 by omega, Nat.pow_add]
      have hnext : result + v % 128 * 2 ^ (7 * count) < 2 ^ (7 * (count + 1)) := by
        have hle : v % 128 * 2 ^ (7 * count) ≤ 127 * 2 ^ (7 * count) :=
          Nat.mul_le_mul_right _ (by omega)
        omega
      have hroom : count + 1 < 10 := by
        by_contra hend
        have hcount' : count = 9 := by omega
        subst hcount'
        have : v < 2 ^ 7 := hv
        omega
      have hdiv : v / 128 < 2 ^ (7 * (10 - (count + 1))) := by
        refine (Nat.div_lt_iff_lt_mul (by decide)).mpr ?_
        rw [← Nat.pow_add 2 _ 7, show 7 * (10 - (count + 1)) + 7 = 7 * (10 - count) by omega]
        exact hv
      rw [varintBytes_of_le (Nat.le_of_not_lt hsmall)]
      simp only [List.cons_append, decodeVarintFrom, if_neg hne, if_neg hmore, hlow,
        or_shift hresult]
      rw [ih hroom hdiv hnext (by omega), hpow]
      congr 1
      have hsplit := Nat.div_add_mod v 128
      calc result + v % 128 * 2 ^ (7 * count) + v / 128 * (2 ^ (7 * count) * 128)
          = result + (128 * (v / 128) + v % 128) * 2 ^ (7 * count) := by ring
        _ = result + v * 2 ^ (7 * count) := by rw [hsplit]

theorem decodeVarint_encodeVarint {v : Nat} (h : v < 2 ^ 64) (rest : Bytes) :
    decodeVarint (encodeVarint v ++ rest) = (v, rest) := by
  have hread := @decodeVarintFrom_varintBytes v 0 0 rest (by decide)
    (Nat.lt_trans h (by decide)) (by decide)
  rw [encodeVarint_natCast, decodeVarint, hread, Nat.mul_zero, Nat.pow_zero, Nat.mul_one, Nat.zero_add]

theorem decodeVarint_encode (x : UInt64) (rest : Bytes) :
    decodeVarint (Varint.encode x ++ rest) = (x.toNat, rest) := by
  have hread := decodeVarint_encodeVarint x.toNat_lt rest
  rwa [encodeVarint_eq x.toNat_lt, UInt64.ofNat_toNat] at hread

end QwerQ.TypeScript
