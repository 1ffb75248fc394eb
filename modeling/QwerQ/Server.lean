import QwerQ.Handlers
import QwerQ.Library.Run

/-! The server of a single node: what a connection remembers between frames, and
what each frame does to it and to the broker. -/
namespace QwerQ

/-- A channel of a consumer, a group member or a stream consumer. Channels compare
equal only if the same queue, group or stream has made them. -/
inductive Chan where
  | consumer (queue : String) (ch : Nat)
  | member (queue group : String) (ch : Nat)
  | stream (queue : String) (ch : Nat)
  deriving DecidableEq, Repr

/-- The number of a channel that the queue has made for a consumer of its own. -/
def Chan.inQueue (queue : String) : Chan → Option Nat
  | .consumer name ch => if name = queue then some ch else none
  | _ => none

/-- The channel that consuming gives: a member's if there is a group. -/
def Chan.consumed (queue group : String) (ch : Nat) : Chan :=
  if group = "" then .consumer queue ch else .member queue group ch

/-- The reply queue and the channel on which the manager listens to it. -/
structure CallManager where
  replyQ : String
  consumer : Nat
  deriving DecidableEq, Repr

structure ConnState where
  queueName : String
  groupName : String
  clientAddr : String
  msgCh : Option Chan
  callManager : Option CallManager
  streamMode : Bool
  consumerGroup : String
  /-- The stream and the number of the channel. -/
  streamConsumer : Option (String × Nat)
  deriving DecidableEq, Repr

def ConnState.new (clientAddr : String) : ConnState := ⟨"", "", clientAddr, none, none, false, "", none⟩

inductive Response where
  | error (code : UInt32) (message : String)
  | seekAck (offset : UInt64)
  | callResponse (payload : List UInt8) (headers : StringMap)
  deriving DecidableEq

structure ConsumeRequest where
  queue : String
  visibilityTimeout : UInt32
  group : String

/-- The positions of the protocol; any other number is `unknown`. -/
inductive SeekPosition where
  | beginning
  | tail
  | offset
  | timestamp
  | unknown
  deriving DecidableEq, Repr

structure SeekRequest where
  queue : String
  consumerGroup : String
  position : SeekPosition
  offset : UInt64
  timestamp : Int

structure CallRequest where
  queue : String
  payload : List UInt8
  headers : StringMap

/-- What a call meets: the delivery pass of the reply queue's consumer, the
correlation id, the publish, and the reply if one is routed before the timeout. -/
structure CallEnv where
  listen : Pass
  correlationID : String
  publish : PublishEnv
  reply : Option (List UInt8 × StringMap)

/-- The readings of a removal: one of the clock for each message put back, the order
of the in-flight map, and the delivery pass. -/
structure LeaveEnv where
  clock : String → Time
  order : List String
  pass : Pass

namespace Server

def handleConsume (req : ConsumeRequest) (now : Time) (pass : Pass) (state : ConnState) :
    Prog (ConnState × Option Response) := do
  let ch ← QwerQ.handleConsume req.queue req.visibilityTimeout req.group state.clientAddr now pass
  let msgCh := ch.map (Chan.consumed req.queue req.group)
  return ({ state with queueName := req.queue, groupName := req.group, msgCh := msgCh }, none)

def nextSequence (queue : String) : Prog UInt64 :=
  lockedStream (some queue) fun sq disk => ((sq, disk), sq.nextSeq)

def getCommittedOffset (queue group : String) : Prog (Except Err UInt64) := do
  if ← look fun w => w.disk.present then readDisk (Storage.loadConsumerOffset queue group)
  else return .ok 0

def seekOffset (req : SeekRequest) (group : String) : Prog (Except Err UInt64) := do
  match req.position with
  | .beginning => return .ok 1
  | .tail => return .ok (← nextSequence req.queue)
  | .offset => return .ok (if req.offset = 0 then 1 else req.offset)
  | .timestamp =>
      if !(← look fun w => w.disk.present) then return .ok 1
      match ← readDisk (Storage.getStreamMessageByTimestamp req.queue req.timestamp) with
      | .error err => return .error err
      | .ok ts => if ts = 0 then return .ok (← nextSequence req.queue) else return .ok ts
  | .unknown =>
      match ← getCommittedOffset req.queue group with
      | .error err => return .error err
      | .ok committed =>
          if 0 < committed then return .ok (committed + 1)
          else return .ok (← nextSequence req.queue)

/-- The old consumer is taken out of the stream that is being sought, whichever
stream it belongs to. -/
def dropConsumer (queue : String) (streamConsumer : Option (String × Nat)) : Prog Unit :=
  match streamConsumer with
  | none => return ()
  | some (stream, ch) =>
      lockedStream (some queue) fun sq disk =>
        ((if stream = queue then sq.removeConsumer ch else sq, disk), ())

def seekStream (req : SeekRequest) (group : String) (state : ConnState) :
    Prog (ConnState × Option Response) := do
  match ← seekOffset req group with
  | .error err => return (state, some (.error 3 err.message))
  | .ok offset =>
      dropConsumer req.queue state.streamConsumer
      let ch ← lockedStream (some req.queue) fun sq disk =>
        (((sq.subscribe group offset).1, disk), (sq.subscribe group offset).2)
      let state := { state with
        queueName := req.queue
        streamMode := true
        consumerGroup := group
        streamConsumer := some (req.queue, ch)
        msgCh := some (.stream req.queue ch) }
      return (state, some (.seekAck offset))

/-- Every position reaches a method of the stream, so a stream that could not be
created ends the process. -/
def handleSeek (req : SeekRequest) (state : ConnState) : Prog (ConnState × Option Response) := do
  match ← getOrCreateStreamQueue req.queue with
  | none => .crash .nilPointer
  | some _ =>
      seekStream req (if req.consumerGroup = "" then state.clientAddr else req.consumerGroup) state

/-- `HandleUnsubscribe` with the connection's channel. A channel that another queue
made is found among no consumers, and the answer is still that it was removed. -/
def unsubscribe (queue groupName : String) (env : LeaveEnv) (state : ConnState) : Prog Bool :=
  match state.msgCh with
  | none => QwerQ.handleUnsubscribe queue groupName state.clientAddr none env.clock env.order env.pass
  | some chan =>
      match chan.inQueue queue with
      | some ch =>
          QwerQ.handleUnsubscribe queue groupName state.clientAddr (some ch) env.clock env.order
            env.pass
      | none =>
          if groupName = "" then getQueue queue
          else
            QwerQ.handleUnsubscribe queue groupName state.clientAddr none env.clock env.order env.pass

def handleUnsubscribe (queue groupName : String) (env : LeaveEnv) (state : ConnState) :
    Prog (ConnState × Option Response) := do
  if ← unsubscribe queue groupName env state then
    return ({ state with msgCh := none, groupName := "" }, none)
  else return (state, some (.error 4 "consumer not found"))

def settled (result : Bool × Option Err) : Option Response :=
  match result with
  | (_, some err) => some (.error 3 err.message)
  | (false, none) => some (.error 4 "message not found")
  | (true, none) => none

/-- In stream mode an ack deletes nothing. -/
def handleAck (id : String) (pass : Pass) (state : ConnState) : Prog (ConnState × Option Response) := do
  if state.streamMode then return (state, none)
  let result ← QwerQ.handleAck id state.queueName state.groupName pass
  return (state, settled result)

def handleNack (id : String) (requeue : Bool) (env : NackEnv) (state : ConnState) :
    Prog (ConnState × Option Response) := do
  let result ← QwerQ.handleNack id state.queueName state.groupName requeue env
  return (state, settled result)

def replyQueuePrefix : String := "_reply."

def newCallManager (connID : String) (pass : Pass) : Prog CallManager := do
  let replyQ := replyQueuePrefix ++ connID
  let q ← getOrCreateQueue replyQ
  lockedPure q (fun _ => .silent) fun q => .ok (q.setMaxSize 1000, ())
  let ch ← lockedPure q (fun _ => .silent) fun q => q.dequeue (60 * nanosecondsPerSecond) pass
  return ⟨replyQ, ch⟩

def callPublish (req : CallRequest) (replyQ correlationID : String) : PublishRequest where
  queue := req.queue
  payload := req.payload
  headers := (req.headers.insert ("reply_to", replyQ)).insert ("correlation_id", correlationID)
  messageId := ""
  idempotencyKey := ""
  orderingKey := ""

def callWith (manager : CallManager) (req : CallRequest) (env : CallEnv) (state : ConnState) :
    Prog (ConnState × Option Response) := do
  let state := { state with callManager := some manager }
  match ← handlePublish (callPublish req manager.replyQ env.correlationID) env.publish with
  | .error err => return (state, some (.error 3 err.message))
  | .ok _ =>
      match env.reply with
      | some (payload, headers) => return (state, some (.callResponse payload headers))
      | none => return (state, some (.error 8 "call timeout"))

/-- The manager is made on the first call of the connection. -/
def handleCall (req : CallRequest) (env : CallEnv) (state : ConnState) :
    Prog (ConnState × Option Response) := do
  match state.callManager with
  | some manager => callWith manager req env state
  | none =>
      let manager ← newCallManager state.clientAddr env.listen
      callWith manager req env state

inductive Frame where
  | consume (req : ConsumeRequest) (now : Time) (pass : Pass)
  | seek (req : SeekRequest)
  | unsubscribe (queue group : String) (env : LeaveEnv)
  | ack (id : String) (pass : Pass)
  | nack (id : String) (requeue : Bool) (env : NackEnv)
  | call (req : CallRequest) (env : CallEnv)

def handleFrame : Frame → ConnState → Prog (ConnState × Option Response)
  | .consume req now pass, state => handleConsume req now pass state
  | .seek req, state => handleSeek req state
  | .unsubscribe queue group env, state => handleUnsubscribe queue group env state
  | .ack id pass, state => handleAck id pass state
  | .nack id requeue env, state => handleNack id requeue env state
  | .call req env, state => handleCall req env state

/-- The deferred cleanup of `handleConn`. Closing the call manager ends its listener
and leaves the broker as it is. -/
def disconnect (env : LeaveEnv) (state : ConnState) : Prog Unit :=
  match state.streamConsumer, state.msgCh with
  | some (stream, ch), _ => do
      if ← isStreamQueue state.queueName then
        lockedStream (some state.queueName) fun sq disk =>
          ((if stream = state.queueName then sq.removeConsumer ch else sq, disk), ())
  | none, some _ => do
      let _ ← unsubscribe state.queueName state.groupName env state
  | none, none => return ()

structure Session where
  state : ConnState
  world : World

/-- A frame that was handled, with the state before and after it. -/
structure Event where
  frame : Frame
  before : ConnState
  after : ConnState
  response : Option Response

/-- The channels that the frame has made for its connection. -/
def Event.made (event : Event) : List Chan :=
  match event.frame with
  | .consume .. => event.after.msgCh.toList
  | .seek _ =>
      match event.response with
      | some (.seekAck _) => event.after.msgCh.toList
      | _ => []
  | .call .. =>
      match event.before.callManager, event.after.callManager with
      | none, some manager => [.consumer manager.replyQ manager.consumer]
      | _, _ => []
  | .unsubscribe .. | .ack .. | .nack .. => []

/-- The connection's next frame, which meets the guard. Nothing else acts on the broker
between two frames: no other connection and no timer. -/
inductive Step (guard : Frame → Session → Prop) :
    List Event → Session → List Event → Session → Prop where
  | handle {history : List Event} {s : Session} {state : ConnState} {response : Option Response}
      {w : World} (frame : Frame) : guard frame s →
      (handleFrame frame s.state).run s.world = (.ok (state, response), w) →
      Step guard history s [⟨frame, s.state, state, response⟩] ⟨state, w⟩

abbrev Runs (guard : Frame → Session → Prop) := Run (Step guard)

end Server

/-- Queues, streams and stored data are as they were. -/
structure Consulted (w w' : World) : Prop where
  queues : w'.broker.queues = w.broker.queues
  streams : ∀ name, w'.stream? name = w.stream? name
  present : w'.disk.present = w.disk.present
  storage : w'.disk.storage = w.disk.storage

section Consulting
open Process
variable {w : World}

theorem consulted_refl (w : World) : Consulted w w := ⟨rfl, fun _ => rfl, rfl, rfl⟩

theorem Consulted.trans {w' w'' : World} (h : Consulted w w') (hnext : Consulted w' w'') :
    Consulted w w'' where
  queues := hnext.queues.trans h.queues
  streams name := (hnext.streams name).trans (h.streams name)
  present := hnext.present.trans h.present
  storage := hnext.storage.trans h.storage

theorem consulted_read (view : Storage → α) :
    Consulted w { w with disk := (w.disk.read view).2 } := by
  refine ⟨rfl, fun _ => rfl, ?_, ?_⟩ <;> unfold Disk.read <;> split <;> rfl

theorem nextSequence_consults (queue : String) :
    (Server.nextSequence queue).Ensures w fun _ w' => Consulted w w' := by
  rw [Server.nextSequence, ensures_lockedStream]
  intro name sq _ hsq
  refine ⟨rfl, fun other => ?_, rfl, rfl⟩
  have hself : sq.name = name := (KeyedMap.find?_eq_some_iff.mp hsq).2
  simp only [World.stream?, World.setStream, KeyedMap.find?_insert]
  split
  · rename_i hother
    rw [hother, hself]
    exact hsq.symm
  · rfl

theorem getCommittedOffset_consults (queue group : String) :
    (Server.getCommittedOffset queue group).Ensures w fun _ w' => Consulted w w' := by
  simp only [Server.getCommittedOffset, ensures_bind, ensures_look]
  split
  · exact consulted_read _
  · exact consulted_refl w

theorem seekOffset_consults (req : SeekRequest) (group : String) :
    (Server.seekOffset req group).Ensures w fun _ w' => Consulted w w' := by
  unfold Server.seekOffset
  cases req.position with
  | beginning | offset => exact consulted_refl w
  | tail =>
    simp only [ensures_bind]
    exact nextSequence_consults req.queue
  | timestamp =>
    simp only [ensures_bind, ensures_look]
    split
    · exact consulted_refl w
    simp only [ensures_bind, ensures_readDisk]
    split
    · exact consulted_read _
    split
    · simp only [ensures_bind]
      exact (nextSequence_consults req.queue).mono fun _ w' h => (consulted_read _).trans h
    · exact consulted_read _
  | unknown =>
    simp only [ensures_bind]
    refine (getCommittedOffset_consults req.queue group).mono fun result next hnext => ?_
    split
    · exact hnext
    split
    · exact hnext
    · simp only [ensures_bind]
      exact (nextSequence_consults req.queue).mono fun _ w' h => hnext.trans h

end Consulting

end QwerQ
