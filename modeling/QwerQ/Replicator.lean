import QwerQ.Cluster
import QwerQ.Server

/-! The server of a cluster node. Publishes, acks and nacks go through the log and are
done by the state machine; everything else is done as on a single node. -/
namespace QwerQ

/-- How a node answers when asked to replicate: whether it leads, and the text of the
error if the entry is not committed. -/
structure Replicator where
  isLeader : Bool
  applyErr : Option String
  deriving DecidableEq, Repr

namespace Replicator

def commits (r : Replicator) : Bool := r.isLeader && r.applyErr.isNone

/-- `Apply`: a committed entry is applied to this node before the call returns. -/
def apply (cmd : Command) (env : ApplyEnv) (r : Replicator) : Prog (Except String FSMResponse) := do
  match r.applyErr with
  | some text => return .error text
  | none =>
      let resp ← FSM.apply cmd env
      match resp.error with
      | some text => return .error text
      | none => return .ok resp

def replicatePublish (queue messageID : String) (payload : List UInt8) (headers : StringMap)
    (publishedAt : Time) (stream : Bool) (env : ApplyEnv) (r : Replicator) :
    Prog (Except String String) := do
  let cmd := ⟨queue, messageID, payload, headers, unixMilli publishedAt, stream⟩
  match ← r.apply (.publish cmd) env with
  | .error text => return .error text
  | .ok resp => return .ok resp.messageID

def replicateAck (queue messageID : String) (env : ApplyEnv) (r : Replicator) :
    Prog (Option String) := do
  match ← r.apply (.ack queue messageID) env with
  | .error text => return some text
  | .ok _ => return none

def replicateNack (queue messageID : String) (requeue : Bool) (env : ApplyEnv) (r : Replicator) :
    Prog (Option String) := do
  match ← r.apply (.nack queue messageID requeue) env with
  | .error text => return some text
  | .ok _ => return none

end Replicator

namespace Server

def notLeader : Response := .error 9 "not leader"

/-- `handlePublish` of a server with or without a replicator, once the schema has been
checked. Returns the id that the ack carries. -/
def handlePublishWith (replicator : Option Replicator) (req : PublishRequest) (env : PublishEnv) :
    Prog (Except Response String) := do
  match replicator with
  | some r =>
      if !r.isLeader then return .error notLeader
      let stream ← isStreamQueue req.queue
      match ← r.replicatePublish req.queue (publishId req env) req.payload req.headers env.now stream
        ⟨env.now, env.enqueue⟩ with
      | .error text => return .error (.error 3 text)
      | .ok replicatedID => return .ok replicatedID
  | none =>
      if ← isStreamQueue req.queue then
        match ← handleStreamPublish req env with
        | .error err => return .error (.error 3 err.message)
        | .ok (id, _) => return .ok id
      else
        match ← handlePublish req env with
        | .error err => return .error (.error 3 err.message)
        | .ok id => return .ok id

/-- The response of a replicated ack or nack. -/
def replicated (err : Option String) : Option Response := err.map (.error 3)

def handleAckWith (replicator : Option Replicator) (id : String) (env : ApplyEnv)
    (state : ConnState) : Prog (Option Response) := do
  if state.streamMode then return none
  match replicator with
  | some r =>
      if !r.isLeader then return some notLeader
      return replicated (← r.replicateAck state.queueName id env)
  | none => return (← handleAck id env.enqueue.pass state).2

def handleNackWith (replicator : Option Replicator) (id : String) (requeue : Bool) (env : NackEnv)
    (state : ConnState) : Prog (Option Response) := do
  match replicator with
  | some r =>
      if !r.isLeader then return some notLeader
      return replicated
        (← r.replicateNack state.queueName id requeue ⟨env.now, ⟨env.pass, env.enqueue.group⟩⟩)
  | none => return (← handleNack id requeue env state).2

/-- The new deadline in milliseconds. -/
def handleExtendVisibility (id : String) (extensionSeconds : UInt32) (now : Time)
    (state : ConnState) : Prog (Except Response Int) := do
  let (newVisibleAt, ok) ← QwerQ.handleExtendVisibility id state.queueName extensionSeconds now
  if !ok then return .error (.error 4 "message not found")
  return .ok (unixMilli newVisibleAt)

end Server
end QwerQ
