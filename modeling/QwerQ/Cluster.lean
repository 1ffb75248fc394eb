import QwerQ.Handlers

/-! The replicated state machine of a cluster node: the commands of the log and
what applying each does to the node's broker, and the snapshots that replace a
prefix of the log. Entries and snapshots are taken as decoded. -/
namespace QwerQ

structure PublishCommand where
  queue : String
  messageID : String
  payload : List UInt8
  headers : StringMap
  /-- In milliseconds since the Unix epoch. -/
  publishedAt : Int
  stream : Bool
  deriving DecidableEq

inductive Command where
  | publish (cmd : PublishCommand)
  | ack (queue messageID : String)
  | nack (queue messageID : String) (requeue : Bool)
  | createQueue (name : String)
  | deleteQueue
  | schemaRegister (queue : String)
  | unknown (type : UInt8)
  | undecodable (text : String)
  deriving DecidableEq

/-- The error by its text. -/
structure FSMResponse where
  error : Option String
  messageID : String
  deriving DecidableEq, Repr

/-- What applying a command meets: the clock of a nack and the delivery passes. -/
structure ApplyEnv where
  now : Time
  enqueue : Env

namespace FSM

def failed (text : String) : FSMResponse := ⟨some text, ""⟩

def publishedMessage (cmd : PublishCommand) : Message where
  id := cmd.messageID
  queue := cmd.queue
  payload := cmd.payload
  headers := cmd.headers
  attempt := 0
  publishedAt := ofUnixMilli cmd.publishedAt
  visibleAt := ofUnixMilli cmd.publishedAt
  orderingKey := ""
  sequence := 0

def applyStreamPublish (cmd : PublishCommand) : Prog FSMResponse := do
  let sq ← getOrCreateStreamQueue cmd.queue
  match ← lockedStream sq (StreamQueue.publish (publishedMessage cmd)) with
  | .error err => return failed err.message
  | .ok _ => return ⟨none, cmd.messageID⟩

/-- A message that could not be stored is only logged. -/
def applyQueuePublish (cmd : PublishCommand) (env : Env) : Prog FSMResponse := do
  let msg := publishedMessage cmd
  let q ← getOrCreateQueue cmd.queue
  let (err, msg) ← lockedPure q (fun q => .enqueue q.name msg.id !q.full) fun q => do
    let (q, err) ← q.enqueue msg env
    return (q, err, asEnqueued msg q err)
  match err with
  | some err => return failed err.message
  | none =>
      let _ ← saveMessage msg
      return ⟨none, cmd.messageID⟩

def applyPublish (cmd : PublishCommand) (env : Env) : Prog FSMResponse :=
  if cmd.stream then applyStreamPublish cmd else applyQueuePublish cmd env

/-- The record is deleted whether or not the message was in flight. -/
def applyAck (queue messageID : String) (pass : Pass) : Prog FSMResponse := do
  if !(← getQueue queue) then return failed ("queue not found: " ++ queue)
  lockedPure (some queue)
    (fun q => .acked q.name messageID (q.inFlight.find? messageID).isSome) fun q => do
      let ((q, _), _) ← q.ackWithHook messageID Hook.none pass ()
      return (q, ())
  let _ ← deleteMessage queue messageID
  return ⟨none, ""⟩

/-- The result is not looked at: a message for the DLQ goes nowhere. -/
def applyNack (queue messageID : String) (requeue : Bool) (now : Time) (pass : Pass) :
    Prog FSMResponse := do
  if !(← getQueue queue) then return failed ("queue not found: " ++ queue)
  lockedPure (some queue) (fun _ => .silent) fun q => do
    let ((q, _), _) ← q.nackWithHooks messageID requeue Hook.none Hook.none now pass ()
    return (q, ())
  return ⟨none, ""⟩

def applyCreateQueue (name : String) : Prog FSMResponse := do
  let _ ← getOrCreateQueue name
  return ⟨none, ""⟩

def apply (cmd : Command) (env : ApplyEnv) : Prog FSMResponse :=
  match cmd with
  | .publish cmd => applyPublish cmd env.enqueue
  | .ack queue messageID => applyAck queue messageID env.enqueue.pass
  | .nack queue messageID requeue => applyNack queue messageID requeue env.now env.enqueue.pass
  | .createQueue name => applyCreateQueue name
  | .deleteQueue => return failed "delete queue not implemented"
  | .schemaRegister queue => applyCreateQueue queue
  | .unknown type => return failed ("unknown command type: " ++ toString type)
  | .undecodable text => return failed text

end FSM

structure SnapshotMessage where
  id : String
  queue : String
  payload : List UInt8
  headers : StringMap
  attempt : UInt32
  publishedAt : Int
  visibleAt : Int
  deriving DecidableEq

structure FSMSnapshot where
  queues : KeyedMap (Prod.fst : String × List SnapshotMessage → String)
  streamQueues : List String
  deriving DecidableEq

namespace SnapshotMessage

def of (msg : Message) : SnapshotMessage :=
  ⟨msg.id, msg.queue, msg.payload, msg.headers, msg.attempt, unixMilli msg.publishedAt,
    unixMilli msg.visibleAt⟩

def message (sm : SnapshotMessage) : Message :=
  ⟨sm.id, sm.queue, sm.payload, sm.headers, sm.attempt, ofUnixMilli sm.publishedAt,
    ofUnixMilli sm.visibleAt, "", 0⟩

end SnapshotMessage

def Message.contents (msg : Message) : SnapshotMessage × String := (.of msg, msg.orderingKey)

/-- `ListQueues`: a name that is a queue's and a stream's is listed twice. -/
def Broker.listQueues (b : Broker) : List String :=
  (b.queues.entries.map Queue.name ++ b.streamQueues.entries.map StreamQueue.name).insertionSort
    fun left right => left ≤ right

namespace FSM

/-- The queues of the snapshot that are not streams, still without messages. -/
def snapshotNames (names : List String) (w : World) : FSMSnapshot where
  queues := names.foldl (fun queues name =>
    if (w.stream? name).isNone ∧ (w.queue? name).isSome then queues.insert (name, []) else queues) ∅
  streamQueues := names.filter fun name => (w.stream? name).isSome

/-- The messages are read from the storage; a queue that cannot be read is left empty. -/
def snapshotMessages (names : List String) (snapshot : FSMSnapshot) : Prog FSMSnapshot :=
  match names with
  | [] => return snapshot
  | name :: rest => do
      if ← isStreamQueue name then snapshotMessages rest snapshot
      else
        match ← readDisk (Storage.loadMessages name) with
        | .error _ => snapshotMessages rest snapshot
        | .ok msgs =>
            let earlier := ((snapshot.queues.find? name).map Prod.snd).getD []
            snapshotMessages rest { snapshot with
              queues := snapshot.queues.insert (name, earlier ++ msgs.map .of) }

def snapshot : Prog FSMSnapshot := do
  let names ← look fun w => w.broker.listQueues
  let snapshot ← look (snapshotNames names)
  if ← look fun w => w.disk.present then snapshotMessages names snapshot else return snapshot

def restoreStreams : List String → Prog Unit
  | [] => return ()
  | name :: rest => do
      let _ ← getOrCreateStreamQueue name
      restoreStreams rest

def restoreMessages (q : Option String) (env : Message → Env) :
    List SnapshotMessage → Prog (Option Err)
  | [] => return none
  | sm :: rest => do
      let msg := sm.message
      let msg ← lockedPure q (fun q => .enqueue q.name msg.id true) fun q => do
        let q ← q.enqueueDirect msg (env msg)
        return (q, asEnqueued msg q none)
      match ← saveMessage msg with
      | some err => return some err
      | none => restoreMessages q env rest

def restoreQueues (env : Message → Env) : List (String × List SnapshotMessage) → Prog (Option Err)
  | [] => return none
  | (name, msgs) :: rest => do
      let q ← getOrCreateQueue name
      match ← restoreMessages q env msgs with
      | some err => return some err
      | none => restoreQueues env rest

def resetForRestore : Prog Unit :=
  .step (fun _ => .silent)
    (fun w => { w with broker := { w.broker with queues := ∅, streamQueues := ∅ } })
    fun _ => .done ()

/-- `order` is the order in which the map of queues is visited. -/
def restore (snapshot : FSMSnapshot) (order : List String) (env : Message → Env) :
    Prog (Option Err) := do
  resetForRestore
  restoreStreams snapshot.streamQueues
  restoreQueues env (snapshot.queues.inOrder order)

end FSM

end QwerQ
