import QwerQ.Badger.Codec
import QwerQ.Library.OrderedStore
import QwerQ.Storage

/-! The storage as keys and values of a store ordered by key. Messages, streams and
offsets share the store; a name, a colon and the rest of the key follow the prefix
of each kind. -/
namespace QwerQ.Badger

instance instLinearOrderUInt8 : LinearOrder UInt8 where
  le_refl := UInt8.le_refl
  le_trans _ _ _ := UInt8.le_trans
  le_antisymm _ _ := UInt8.le_antisymm
  le_total := UInt8.le_total
  lt_iff_le_not_ge a b := by
    rw [UInt8.le_iff_toNat_le, UInt8.le_iff_toNat_le, UInt8.lt_iff_toNat_lt]
    omega
  toDecidableLE := inferInstance

abbrev Db := OrderedStore Bytes Bytes

structure StreamMessage where
  message : Message
  sequence : UInt64
  deriving DecidableEq

def colon : UInt8 := 58

def msgPrefix : Bytes := [109, 115, 103, colon]

def queuePrefix : Bytes := [113, 117, 101, 117, 101, colon]

def streamPrefix : Bytes := [115, 116, 114, 101, 97, 109, colon]

def offsetPrefix : Bytes := [111, 102, 102, 115, 101, 116, colon]

/-- What the keys of a queue start with, in each kind. -/
def keyspace (kind queue : Bytes) : Bytes := kind ++ queue ++ [colon]

/-- `%020d`. -/
def padded (seq : UInt64) : Bytes :=
  (List.range 20).reverse.map fun i => UInt8.ofNat (48 + seq.toNat / 10 ^ i % 10)

def msgKey (queue id : Bytes) : Bytes := keyspace msgPrefix queue ++ id

def queueKey (name : Bytes) : Bytes := queuePrefix ++ name

def streamKey (queue : Bytes) (seq : UInt64) : Bytes := keyspace streamPrefix queue ++ padded seq

def offsetKey (queue group : Bytes) : Bytes := keyspace offsetPrefix queue ++ group

/-- The text formats of the standard library that values are stored in. -/
structure Formats where
  marshalConfig : QueueConfig → Bytes
  marshalStream : StreamMessage → Except String Bytes
  unmarshalStream : Bytes → Except String StreamMessage
  unmarshalMessage : Bytes → Message → Except DecodeError Message
  printOffset : UInt64 → Bytes
  scanNumber : Bytes → Except String UInt64

def update (fault : Option String) (change : Db → Db) (db : Db) : Option Err × Db :=
  match fault with
  | some text => (some (.storage text), db)
  | none => (none, change db)

def saveMessage (order : List Bytes) (msg : Message) (fault : Option String) (db : Db) :
    Option Err × Db :=
  update fault (·.set (msgKey msg.queue msg.id) (encodeMessage order msg)) db

def deleteMessage (queue id : Bytes) (fault : Option String) (db : Db) : Option Err × Db :=
  update fault (·.delete (msgKey queue id)) db

def deleteBatchSize : Nat := 500

/-- The loop of `DeleteQueueMessages`. Each round deletes a key, so the number of
keys bounds the rounds; `faults` says which of the transactions to come fail. -/
def deleteBatches (space : Bytes) : Nat → (Nat → Option String) → Db → Option Err × Db
  | 0, _, db => (none, db)
  | rounds + 1, faults, db =>
      let keys := ((db.scan space space).take deleteBatchSize).map Prod.fst
      if keys.isEmpty then (none, db)
      else
        match update (faults 0) (·.deleteAll keys) db with
        | (some err, db) => (some err, db)
        | (none, db) => deleteBatches space rounds (fun n => faults (n + 1)) db

def deleteQueueMessages (queue : Bytes) (faults : Nat → Option String) (db : Db) :
    Option Err × Db :=
  deleteBatches (keyspace msgPrefix queue) (db.entries.length + 1) faults db

def saveQueue (formats : Formats) (name : Bytes) (config : QueueConfig) (fault : Option String)
    (db : Db) : Option Err × Db :=
  update fault (·.set (queueKey name) (formats.marshalConfig config)) db

def saveStreamMessage (formats : Formats) (queue : Bytes) (seq : UInt64) (msg : StreamMessage)
    (fault : Option String) (db : Db) : Option Err × Db :=
  match formats.marshalStream msg with
  | .error text => (some (.storage text), db)
  | .ok data => update fault (·.set (streamKey queue seq) data) db

def saveConsumerOffset (formats : Formats) (queue group : Bytes) (offset : UInt64)
    (fault : Option String) (db : Db) : Option Err × Db :=
  update fault (·.set (offsetKey queue group) (formats.printOffset offset)) db

/-- The scan stops at the first key not below that of `seq`. -/
def deleteStreamMessagesBefore (queue : Bytes) (seq : UInt64) (fault : Option String) (db : Db) :
    Option Err × Db :=
  let space := keyspace streamPrefix queue
  let toDelete := ((db.scan space space).takeWhile fun entry => entry.1 < streamKey queue seq).map
    Prod.fst
  update fault (·.deleteAll toDelete) db

/-- A scan that decodes each entry and stops at the first error; what it has read
by then is returned with the error. -/
def collect (decode : α → Except ε β) : List α → List β × Option ε
  | [] => ([], none)
  | entry :: rest =>
      match decode entry with
      | .error err => ([], some err)
      | .ok value =>
          let (values, err) := collect decode rest
          (value :: values, err)

def blankMessage (id queue : Bytes) : Message := ⟨id, queue, [], ∅, 0, 0, 0, [], 0⟩

def loadMessages (formats : Formats) (queue : Bytes) (db : Db) : List Message × Option DecodeError :=
  let space := keyspace msgPrefix queue
  collect (fun entry => decodeMessage formats.unmarshalMessage entry.2
    (blankMessage (entry.1.drop space.length) queue)) (db.scan space space)

def loadStreamMessages (formats : Formats) (queue : Bytes) (fromSeq : UInt64) (limit : Int)
    (db : Db) : List StreamMessage × Option String :=
  collect (fun entry => formats.unmarshalStream entry.2)
    ((db.scan (keyspace streamPrefix queue) (streamKey queue fromSeq)).take limit.toNat)

def loadConsumerOffset (formats : Formats) (queue group : Bytes) (db : Db) :
    Except String UInt64 :=
  match db.get (offsetKey queue group) with
  | none => .ok 0
  | some data => formats.scanNumber data

def loadAllConsumerOffsets (formats : Formats) (queue : Bytes) (db : Db) :
    List (Bytes × UInt64) × Option String :=
  let space := keyspace offsetPrefix queue
  collect (fun entry => do
    let offset ← formats.scanNumber entry.2
    return (entry.1.drop space.length, offset)) (db.scan space space)

/-- Placed at the end of the stream's keys, going back. -/
def getStreamSequence (formats : Formats) (queue : Bytes) (db : Db) : Except String UInt64 :=
  let space := keyspace streamPrefix queue
  match db.scanBack space (space ++ [255]) with
  | none => .ok 0
  | some (key, _) => formats.scanNumber (key.drop space.length)

def getStreamStats (formats : Formats) (queue : Bytes) (db : Db) :
    UInt64 × UInt64 × Option String :=
  let space := keyspace streamPrefix queue
  let oldest : Except String UInt64 := match (db.scan space space).head? with
    | none => .ok 0
    | some (key, _) => formats.scanNumber (key.drop space.length)
  match oldest, getStreamSequence formats queue db with
  | .error text, _ => (0, 0, some text)
  | .ok oldest, .error text => (oldest, 0, some text)
  | .ok oldest, .ok newest => (oldest, newest, none)

/-- The loop of `GetStreamMessageByTimestamp`, up to the first message that is not too old. -/
def seekTimestamp (formats : Formats) (timestampMs : Int) : List (Bytes × Bytes) → UInt64 × Option String
  | [] => (0, none)
  | entry :: rest =>
      match formats.unmarshalStream entry.2 with
      | .error text => (0, some text)
      | .ok msg =>
          if unixMilli msg.message.publishedAt ≥ timestampMs then (msg.sequence, none)
          else seekTimestamp formats timestampMs rest

def getStreamMessageByTimestamp (formats : Formats) (queue : Bytes) (timestampMs : Int) (db : Db) :
    UInt64 × Option String :=
  let space := keyspace streamPrefix queue
  seekTimestamp formats timestampMs (db.scan space space)

inductive Call where
  | saveMessage (order : List Bytes) (msg : Message)
  | deleteMessage (queue id : Bytes)
  | deleteQueueMessages (queue : Bytes)
  | saveQueue (name : Bytes) (config : QueueConfig)
  | saveStreamMessage (queue : Bytes) (seq : UInt64) (msg : StreamMessage)
  | deleteStreamMessagesBefore (queue : Bytes) (seq : UInt64)
  | saveConsumerOffset (queue group : Bytes) (offset : UInt64)

namespace Call

def queue : Call → Bytes
  | .saveMessage _ msg => msg.queue
  | .deleteMessage queue _ => queue
  | .deleteQueueMessages queue => queue
  | .saveQueue name _ => name
  | .saveStreamMessage queue _ _ => queue
  | .deleteStreamMessagesBefore queue _ => queue
  | .saveConsumerOffset queue _ _ => queue

/-- The store after the call, whose transactions fail as `faults` says. -/
def run (formats : Formats) (faults : Nat → Option String) (db : Db) : Call → Db
  | .saveMessage order msg => (Badger.saveMessage order msg (faults 0) db).2
  | .deleteMessage queue id => (Badger.deleteMessage queue id (faults 0) db).2
  | .deleteQueueMessages queue => (Badger.deleteQueueMessages queue faults db).2
  | .saveQueue name config => (Badger.saveQueue formats name config (faults 0) db).2
  | .saveStreamMessage queue seq msg =>
      (Badger.saveStreamMessage formats queue seq msg (faults 0) db).2
  | .deleteStreamMessagesBefore queue seq =>
      (Badger.deleteStreamMessagesBefore queue seq (faults 0) db).2
  | .saveConsumerOffset queue group offset =>
      (Badger.saveConsumerOffset formats queue group offset (faults 0) db).2

end Call

inductive Reached (formats : Formats) : Db → Prop where
  | empty : Reached formats .empty
  | call {db : Db} (call : Call) (faults : Nat → Option String) :
      Reached formats db → Reached formats (call.run formats faults db)

structure View where
  messages : List Message × Option DecodeError
  streamMessages : UInt64 → Int → List StreamMessage × Option String
  sequence : Except String UInt64
  stats : UInt64 × UInt64 × Option String
  offset : Bytes → Except String UInt64
  offsets : List (Bytes × UInt64) × Option String

def view (formats : Formats) (queue : Bytes) (db : Db) : View where
  messages := loadMessages formats queue db
  streamMessages fromSeq limit := loadStreamMessages formats queue fromSeq limit db
  sequence := getStreamSequence formats queue db
  stats := getStreamStats formats queue db
  offset group := loadConsumerOffset formats queue group db
  offsets := loadAllConsumerOffsets formats queue db

end QwerQ.Badger
