import QwerQ.Storage

/-! The stream queue: a log that messages are appended to and consumers read at
offsets of their own. Each method is one section under the stream's lock. `made`
numbers the channels the stream has made; a channel's number is its identity. -/
namespace QwerQ

structure StreamConsumer where
  ch : Nat
  group : String
  offset : UInt64
  buffer : List Message
  deriving DecidableEq

def streamBuffer : Nat := 100

/-- The notification of a consumer at the tail. A full channel is passed over. -/
def StreamConsumer.notify (msg : Message) (c : StreamConsumer) : StreamConsumer :=
  if c.offset = msg.sequence ∧ c.buffer.length < streamBuffer then
    { c with buffer := c.buffer ++ [msg], offset := msg.sequence + 1 }
  else c

structure StreamQueue where
  name : String
  nextSeq : UInt64
  consumers : List StreamConsumer
  retentionMaxAge : Duration
  retentionMaxBytes : Int
  made : Nat
  deriving DecidableEq

namespace StreamQueue

/-- `NewStreamQueue`: the sequence goes on after the last stored message. -/
def new (name : String) (stored : Except Err UInt64) : StreamQueue where
  name := name
  nextSeq := match stored with
    | .ok seq => if 0 < seq then seq + 1 else 1
    | .error _ => 1
  consumers := []
  retentionMaxAge := 0
  retentionMaxBytes := 0
  made := 0

def setRetention (maxAge : Duration) (maxBytes : Int) (sq : StreamQueue) : StreamQueue :=
  { sq with retentionMaxAge := maxAge, retentionMaxBytes := maxBytes }

/-- Returns the sequence number, which is taken back if the message cannot be stored. -/
def publish (msg : Message) (sq : StreamQueue) (disk : Disk) :
    (StreamQueue × Disk) × Except Err UInt64 :=
  let msg := { msg with sequence := sq.nextSeq }
  match disk.write (Storage.saveStreamMessage sq.name sq.nextSeq msg) with
  | (some err, disk) => ((sq, disk), .error err)
  | (none, disk) =>
      (({ sq with
          nextSeq := sq.nextSeq + 1
          consumers := sq.consumers.map (StreamConsumer.notify msg) }, disk), .ok sq.nextSeq)

def appended (msg : Message) (sq : StreamQueue) : StreamQueue :=
  { sq with
    nextSeq := sq.nextSeq + 1
    consumers := sq.consumers.map (StreamConsumer.notify { msg with sequence := sq.nextSeq }) }

theorem publish_of_fails (msg : Message) (sq : StreamQueue) {disk : Disk} (h : disk.fails 0) :
    ∃ err, sq.publish msg disk = ((sq, disk.called disk.storage), .error err) := by
  have ⟨err, hwrite⟩ := Disk.write_of_fails
    (Storage.saveStreamMessage sq.name sq.nextSeq { msg with sequence := sq.nextSeq }) h
  exact ⟨err, by simp only [publish, hwrite]⟩

theorem publish_of_not_fails (msg : Message) (sq : StreamQueue) {disk : Disk} (h : ¬ disk.fails 0) :
    sq.publish msg disk = ((sq.appended msg, disk.wrote
      (Storage.saveStreamMessage sq.name sq.nextSeq { msg with sequence := sq.nextSeq })),
      .ok sq.nextSeq) := by
  simp only [publish, Disk.write_of_not_fails _ h]
  rfl

theorem publish_name (msg : Message) (sq : StreamQueue) (disk : Disk) :
    (sq.publish msg disk).1.1.name = sq.name := by
  simp only [publish]
  split <;> rfl

theorem publish_disk (msg : Message) (sq : StreamQueue) (disk : Disk) :
    (sq.publish msg disk).1.2 = (disk.write
      (Storage.saveStreamMessage sq.name sq.nextSeq { msg with sequence := sq.nextSeq })).2 := by
  simp only [publish]
  split
  · rename_i hwrite
    rw [hwrite]
  · rename_i hwrite
    rw [hwrite]

/-- Returns the channel. An offset of zero stands for the tail. -/
def subscribe (group : String) (startOffset : UInt64) (sq : StreamQueue) : StreamQueue × Nat :=
  let offset := if startOffset = 0 then sq.nextSeq else startOffset
  ({ sq with consumers := sq.consumers ++ [⟨sq.made, group, offset, []⟩], made := sq.made + 1 },
    sq.made)

def removeConsumer (ch : Nat) (sq : StreamQueue) : StreamQueue :=
  { sq with consumers := sq.consumers.eraseP fun c => c.ch = ch }

end StreamQueue

end QwerQ
