import QwerQ.Broker

/-! The request handlers, and the two operations of the broker that move or
remove whole queues of messages. -/
namespace QwerQ

def defaultVisibilityTimeout : Duration := 30 * nanosecondsPerSecond

/-- `messageId` and `idempotencyKey` are empty where the request leaves them out. -/
structure PublishRequest where
  queue : String
  payload : List UInt8
  headers : StringMap
  messageId : String
  idempotencyKey : String
  orderingKey : String

/-- The readings a publish takes: allocated memory, the clock at the idempotency
check, a generated id, the clock at the message's creation. -/
structure PublishEnv where
  alloc : UInt64
  checked : Time
  ulid : String
  now : Time
  enqueue : Env

def publishId (req : PublishRequest) (env : PublishEnv) : String :=
  if req.messageId = "" then env.ulid else req.messageId

def publishMessage (req : PublishRequest) (env : PublishEnv) : Message where
  id := publishId req env
  queue := req.queue
  payload := req.payload
  headers := req.headers
  attempt := 0
  publishedAt := env.now
  visibleAt := env.now
  orderingKey := req.orderingKey
  sequence := 0

/-- Large payloads get the check that is not throttled. -/
def Broker.checkMemory (req : PublishRequest) (alloc : UInt64) (b : Broker) : Option Err :=
  if largeMessageThreshold < req.payload.length then b.checkMemoryPressureEager alloc
  else b.checkMemoryPressure alloc

def memoryCheck (req : PublishRequest) (alloc : UInt64) : Prog (Option Err) :=
  look fun w => w.broker.checkMemory req alloc

/-- The tracker's check, with the broker that keeps its result. -/
def Broker.checkKey (key : String) (now : Time) (b : Broker) : Option Err × Broker :=
  match b.dedup with
  | none => (none, b)
  | some tracker =>
      let (err, tracker) := tracker.check key now
      (err, { b with dedup := some tracker })

theorem queue?_checkKey (key : String) (now : Time) (name : String) (w : World) :
    ({ w with broker := (w.broker.checkKey key now).2 } : World).queue? name = w.queue? name := by
  unfold World.queue? Broker.checkKey
  split <;> rfl

def dedupCheck (key : String) (now : Time) : Prog (Option Err) :=
  .step (fun _ => .silent) (fun w => { w with broker := (w.broker.checkKey key now).2 })
    fun w => .done (w.broker.checkKey key now).1

def enqueue (q : Option String) (msg : Message) (env : Env) : Prog (Option Err) :=
  lockedPure q (fun q => .enqueue q.name msg.id !q.full) fun q => q.enqueue msg env

/-- Saves, then enqueues; a refused message is deleted again. -/
def saveAndEnqueue (q : Option String) (msg : Message) (env : Env) : Prog (Option Err) := do
  if let some err ← saveMessage msg then return some err
  match ← enqueue q msg env with
  | none => return none
  | some err =>
      match ← deleteMessage msg.queue msg.id with
      | some rbErr => return some (.joined err rbErr)
      | none => return some err

def handlePublish (req : PublishRequest) (env : PublishEnv) : Prog (Except Err String) := do
  if let some err ← memoryCheck req env.alloc then return .error err
  if let some err ← dedupCheck req.idempotencyKey env.checked then return .error err
  if let some err ← getOrCreateQueueWithError req.queue then return .error err
  match ← saveAndEnqueue (some req.queue) (publishMessage req env) env.enqueue with
  | some err => return .error err
  | none => return .ok (publishId req env)

theorem Broker.checkKey_refused {b : Broker} {key : String} {now : Time}
    (h : (b.checkKey key now).1 ≠ none) : (b.checkKey key now).2 = b := by
  unfold Broker.checkKey at h ⊢
  cases hdedup : b.dedup with
  | none => rfl
  | some tracker =>
    simp only [hdedup, IdempotencyTracker.check] at h ⊢
    split at h
    · exact absurd rfl h
    · rename_i hkey
      rw [if_neg hkey]
      split at h
      · rename_i hseen
        rw [if_pos hseen, ← hdedup]
      · exact absurd rfl h

variable {post : Except Err String → World → Prop} {q : Queue} {groupName : String}

section Publish
open Process
variable {w : World} {req : PublishRequest} {env : PublishEnv}

def Refused (req : PublishRequest) (env : PublishEnv) (w : World) : Prop :=
  w.broker.checkMemory req env.alloc ≠ none ∨
    (w.broker.checkKey req.idempotencyKey env.checked).1 ≠ none

def World.keyed (req : PublishRequest) (env : PublishEnv) (w : World) : World :=
  { w with broker := (w.broker.checkKey req.idempotencyKey env.checked).2 }

theorem World.queueAt_keyed (w : World) (name : String) :
    (w.keyed req env).queueAt name = w.queueAt name := by
  rw [World.queueAt, World.keyed, queue?_checkKey]
  rfl

theorem World.stream?_keyed (w : World) (name : String) :
    (w.keyed req env).stream? name = w.stream? name := by
  unfold World.stream? World.keyed Broker.checkKey
  split <;> rfl

theorem World.queue?_keyed (w : World) (name : String) :
    (w.keyed req env).queue? name = w.queue? name :=
  queue?_checkKey _ _ _ _

/-- The steps of a publish once its two checks have passed. -/
def storeAndEnqueue (msg : Message) (passes : Env) : Prog (Except Err String) := do
  if let some err ← getOrCreateQueueWithError msg.queue then return .error err
  match ← saveAndEnqueue (some msg.queue) msg passes with
  | some err => return .error err
  | none => return .ok msg.id

variable (env)

theorem handlePublish_refused (h : Refused req env w) :
    (handlePublish req env).Returns w fun result w' => result.toOption = none ∧ w' = w := by
  simp only [handlePublish, memoryCheck, dedupCheck, returns_bind, returns_look]
  cases hmemory : w.broker.checkMemory req env.alloc with
  | some err => exact ⟨rfl, rfl⟩
  | none =>
    have hkey := h.resolve_left (fun hnone => hnone hmemory)
    obtain ⟨err, herr⟩ := Option.ne_none_iff_exists'.mp hkey
    simp only [returns_bind, returns_step, returns_done, herr, Broker.checkKey_refused hkey]
    exact ⟨rfl, rfl⟩

theorem returns_handlePublish (h : ¬ Refused req env w) : (handlePublish req env).Returns w post ↔
      (storeAndEnqueue (publishMessage req env) env.enqueue).Returns (w.keyed req env) post := by
  simp only [Refused, not_or, ne_eq, not_not] at h
  simp only [handlePublish, memoryCheck, dedupCheck, returns_bind, returns_look, h.1, returns_step,
    returns_done, h.2, storeAndEnqueue]
  rfl

omit env in
theorem returns_storeAndEnqueue_saves {msg : Message} {passes : Env}
    (hnone : (createQueue msg.queue w).1 = none) :
    (storeAndEnqueue msg passes).Returns w post ↔
      (saveAndEnqueue (some msg.queue) msg passes).Returns (createQueue msg.queue w).2
        fun err w' => post (err.elim (.ok msg.id) .error) w' := by
  simp only [storeAndEnqueue, returns_bind, returns_getOrCreateQueueWithError, hnone]
  constructor
  · intro h
    refine h.mono fun err w' hpost => ?_
    cases err <;> exact hpost
  · intro h
    refine h.mono fun err w' hpost => ?_
    cases err <;> exact hpost

/-- A publish by its outcomes: refused by a check, without a queue, or by what saving and
enqueueing make of it. -/
theorem ensures_handlePublish (hrefused : Refused req env w → ∀ err, post (.error err) w)
    (huncreated : ∀ err, (createQueue req.queue (w.keyed req env)).1 = some err →
      post (.error err) (createQueue req.queue (w.keyed req env)).2)
    (hsaves : ¬ Refused req env w → (createQueue req.queue (w.keyed req env)).1 = none →
      (saveAndEnqueue (some req.queue) (publishMessage req env) env.enqueue).Ensures
        (createQueue req.queue (w.keyed req env)).2 fun err w' =>
          post (err.elim (.ok (publishId req env)) .error) w') :
    (handlePublish req env).Ensures w post := by
  by_cases hchecked : Refused req env w
  · rw [ensures_iff]
    intro result w' hrun
    have ⟨_, _, hran, hnone, hsame⟩ := returns_iff.mp (handlePublish_refused env hchecked)
    cases hrun.symm.trans hran
    cases result with
    | error err => exact hsame ▸ hrefused hchecked err
    | ok id => cases hnone
  · have hnone := hchecked
    simp only [Refused, not_or, ne_eq, not_not] at hnone
    simp only [handlePublish, memoryCheck, dedupCheck, ensures_bind, ensures_look, hnone.1,
      ensures_step, ensures_done, hnone.2, ensures_getOrCreateQueueWithError]
    rw [← World.keyed]
    cases hcreate : (createQueue req.queue (w.keyed req env)).1 with
    | some err => exact huncreated err hcreate
    | none =>
      simp only [ensures_bind]
      refine (hsaves hchecked hcreate).mono fun err w' hpost => ?_
      cases err <;> exact hpost

end Publish

/-- A stream's message keeps no ordering key and no visibility time. -/
def streamMessage (req : PublishRequest) (env : PublishEnv) : Message :=
  { publishMessage req env with visibleAt := 0, orderingKey := "" }

def handleStreamPublish (req : PublishRequest) (env : PublishEnv) :
    Prog (Except Err (String × UInt64)) := do
  if let some err ← memoryCheck req env.alloc then return .error err
  if let some err ← dedupCheck req.idempotencyKey env.checked then return .error err
  if let some err ← getOrCreateStreamQueueWithError req.queue then return .error err
  match ← lockedStream (some req.queue) (StreamQueue.publish (streamMessage req env)) with
  | .error err => return .error err
  | .ok seq => return .ok (publishId req env, seq)

def consumeTimeout (visibilityTimeout : UInt32) : Duration :=
  if 0 < visibilityTimeout then visibilityTimeout.toNat * nanosecondsPerSecond
  else defaultVisibilityTimeout

/-- What a section of a queue's group does: `none` if there is no such group. -/
def Queue.inGroup (groupName : String) (q : Queue) (disk : Disk)
    (body : ConsumerGroup → Disk → Go ((ConsumerGroup × Disk) × α)) :
    Go ((Queue × Disk) × Option α) :=
  match q.groups.find? groupName with
  | none => .ok ((q, disk), none)
  | some g => do
      let ((g, disk), result) ← body g disk
      return (({ q with groups := q.groups.insert g }, disk), some result)

theorem Queue.inGroup_cases {q' : Queue} {disk disk' : Disk}
    {result : Option α} {body : ConsumerGroup → Disk → Go ((ConsumerGroup × Disk) × α)}
    (h : q.inGroup groupName disk body = .ok ((q', disk'), result)) :
    q.groups.find? groupName = none ∧ q' = q ∧ disk' = disk ∧ result = none ∨
      ∃ g g' value, q.groups.find? groupName = some g ∧ body g disk = .ok ((g', disk'), value) ∧
        q' = { q with groups := q.groups.insert g' } ∧ result = some value := by
  unfold inGroup at h
  cases hg : q.groups.find? groupName with
  | none =>
    rw [hg] at h
    cases h
    exact .inl ⟨rfl, rfl, rfl, rfl⟩
  | some g =>
    simp only [hg, Go.bind_eq_ok, Go.pure_eq] at h
    have ⟨⟨⟨g', left⟩, value⟩, hbody, hret⟩ := h
    cases hret
    exact .inr ⟨g, g', value, rfl, hbody, rfl, rfl⟩

def lockedGroup (q : Option String) (groupName : String) (label : Queue → Disk → Label)
    (body : Queue → ConsumerGroup → Disk → Go ((ConsumerGroup × Disk) × α)) : Prog (Option α) :=
  locked q label fun q disk => q.inGroup groupName disk (body q)

def handleConsume (queue : String) (visibilityTimeout : UInt32) (groupName memberID : String)
    (now : Time) (pass : Pass) : Prog (Option Nat) := do
  let timeout := consumeTimeout visibilityTimeout
  let q ← getOrCreateQueue queue
  if groupName = "" then
    lockedPure q (fun _ => .silent) fun q => do
      let (q, ch) ← q.dequeue timeout pass
      return (q, some ch)
  else
    lockedPure q (fun _ => .silent) fun q => .ok (q.getOrCreateGroup groupName, ())
    lockedGroup q groupName (fun _ _ => .silent) fun _ g disk => do
      let (g, ch) ← g.addMember memberID timeout now pass
      return ((g, disk), ch)

def receive (queue : String) (ch : Nat) : Prog Unit := do
  if ← getQueue queue then
    lockedPure (some queue) (fun _ => .silent) fun q => .ok (q.receive ch, ())

def deleteStored (queue id : String) : Hook Disk :=
  fun _ disk => disk.write (Storage.deleteMessage queue id)

def persistRequeue : Hook Disk := fun msg disk => disk.write (Storage.saveMessage msg)

/-- A message in flight in the queue itself or, under a name, in one of its groups. -/
def Queue.inFlightIn (groupName id : String) (q : Queue) : Option Message :=
  if groupName = "" then q.inFlight.find? id
  else (q.groups.find? groupName).bind fun g => (g.inFlight.find? id).map InFlightEntry.message

def World.inFlightIn (name group id : String) (w : World) : Option Message :=
  (w.queue? name).bind fun q => q.inFlightIn group id

/-- What becomes of the message that a nack names, if it is in flight. -/
def World.verdict (name group id : String) (requeue : Bool) (w : World) : Option Verdict :=
  (w.queue? name).bind fun q => (q.inFlightIn group id).map fun msg =>
    nackVerdict q.failurePolicy q.maxRetries requeue msg.attempt

theorem inFlightIn_queue (id : String) (q : Queue) : q.inFlightIn "" id = q.inFlight.find? id :=
  if_pos rfl

theorem inFlightIn_group {id : String} {g : ConsumerGroup}
    (hgroup : groupName ≠ "") (hg : q.groups.find? groupName = some g) :
    q.inFlightIn groupName id = (g.inFlight.find? id).map InFlightEntry.message := by
  rw [Queue.inFlightIn, if_neg hgroup, hg]
  rfl

theorem inFlightIn_no_group {id : String} (hgroup : groupName ≠ "")
    (hg : q.groups.find? groupName = none) : q.inFlightIn groupName id = none := by
  rw [Queue.inFlightIn, if_neg hgroup, hg]
  rfl

def ackLabel (groupName id : String) (q : Queue) (disk : Disk) : Label :=
  .acked q.name id ((q.inFlightIn groupName id).isSome &&
    (disk.write (Storage.deleteMessage q.name id)).1.isNone)

def handleAck (id queueName groupName : String) (pass : Pass) : Prog (Bool × Option Err) := do
  if !(← getQueue queueName) then return (false, none)
  if groupName ≠ "" then
    match ← lockedGroup (some queueName) groupName (ackLabel groupName id)
      fun _ g disk => g.ackWithHook id (deleteStored queueName id) pass disk with
    | none => return (false, none)
    | some result => return result
  else
    locked (some queueName) (ackLabel groupName id) fun q disk =>
      q.ackWithHook id (deleteStored queueName id) pass disk

/-- A requeue saves the message again, unless it is a group's; a move to the DLQ calls
no storage under the lock. -/
def nackLabel (groupName id : String) (requeue : Bool) (q : Queue) (_ : Disk) : Label :=
  match q.inFlightIn groupName id with
  | none => .silent
  | some msg =>
      match nackVerdict q.failurePolicy q.maxRetries requeue msg.attempt with
      | .toDLQ => .deadLettered q.name id
      | .drop => .delete q.name id
      | .requeue => if groupName = "" then .save msg.queue id else .silent

/-- The readings a nack takes: the clock and the delivery pass of a requeue, the
clock of a move to the DLQ and what the DLQ's enqueue meets. -/
structure NackEnv where
  now : Time
  pass : Pass
  moved : Time
  enqueue : Env

/-- A message as it stands once `Enqueue` has returned: the last one pending, or
delivered at once. A refused message is as it was. -/
def asEnqueued (msg : Message) (q : Queue) (err : Option Err) : Message :=
  if err.isSome then msg
  else (q.messages.getLast?.or (q.inFlight.find? msg.id)).getD msg

/-- Moves a message to the dead letter queue. All errors are ignored. -/
def moveToDLQ (queueName : String) (msg : Message) (env : NackEnv) : Prog Unit := do
  let dlq ← getOrCreateQueue (dlqName queueName)
  let moved := { msg with queue := dlqName queueName, visibleAt := env.moved }
  let moved ← lockedPure dlq (fun q => .enqueue q.name msg.id !q.full) fun q => do
    let (q, err) ← q.enqueue moved env.enqueue
    return (q, asEnqueued moved q err)
  let _ ← deleteMessage queueName msg.id
  let _ ← saveMessage moved

def settleNack (queueName : String) (env : NackEnv) (result : NackResult) (err : Option Err) :
    Prog (Bool × Option Err) := do
  if let some err := err then return (false, some err)
  if !result.found then return (false, none)
  if result.toDLQ then
    if let some msg := result.message then moveToDLQ queueName msg env
  return (true, none)

def handleNack (id queueName groupName : String) (requeue : Bool) (env : NackEnv) :
    Prog (Bool × Option Err) := do
  if !(← getQueue queueName) then return (false, none)
  if groupName ≠ "" then
    match ← lockedGroup (some queueName) groupName (nackLabel groupName id requeue)
      fun q g disk => g.nackWithHooks id requeue q.maxRetries q.failurePolicy
        (deleteStored queueName id) env.now env.pass disk with
    | none => return (false, none)
    | some (result, err) => settleNack queueName env result err
  else
    let (result, err) ← locked (some queueName) (nackLabel groupName id requeue) fun q disk =>
      q.nackWithHooks id requeue (deleteStored queueName id) persistRequeue env.now env.pass disk
    settleNack queueName env result err

/-- Returns the new deadline; a zero deadline stands for a message not in flight. -/
def handleExtendVisibility (id queueName : String) (extensionSeconds : UInt32) (now : Time) :
    Prog (Time × Bool) := do
  if !(← getQueue queueName) then return (0, false)
  let newVisibleAt ← lockedPure (some queueName) (fun _ => .silent) fun q =>
    .ok (q.extendVisibility id (extensionSeconds.toNat * nanosecondsPerSecond) now)
  if newVisibleAt = 0 then return (0, false)
  return (newVisibleAt, true)

def handleHeartbeat (queue groupName memberID : String) (now : Time) : Prog Bool := do
  if !(← getQueue queue) then return false
  let alive ← lockedGroup (some queue) groupName (fun _ _ => .silent) fun _ g disk =>
    let (g, alive) := g.heartbeat memberID now
    .ok ((g, disk), alive)
  return alive.getD false

/-- `ch` is the consumer's channel, if it has one. -/
def handleUnsubscribe (queue groupName memberID : String) (ch : Option Nat)
    (clock : String → Time) (order : List String) (pass : Pass) : Prog Bool := do
  if !(← getQueue queue) then return false
  if groupName ≠ "" then
    match ← lockedGroup (some queue) groupName (fun _ _ => .silent) fun _ g disk => do
      let (g, empty) ← g.removeMember memberID clock order pass
      return ((g, disk), empty) with
    | none => return false
    | some empty =>
        if empty then
          lockedPure (some queue) (fun _ => .silent) fun q => .ok (q.removeGroup groupName, ())
        return true
  else
    match ch with
    | none => return false
    | some ch =>
        lockedPure (some queue) (fun _ => .silent) fun q => .ok (q.removeConsumer ch, ())
        return true

def requeueExpired (queue : String) (sweep : Sweep) (group : String → Sweep) : Prog Unit := do
  if ← getQueue queue then
    lockedPure (some queue) (fun _ => .silent) fun q => do
      let q ← q.requeueExpired sweep group
      return (q, ())

def purgeQueue (name : String) : Prog (Nat × Option Err) := do
  if !(← getQueue name) then return (0, none)
  if let some err ← deleteQueueMessages name then return (0, some err)
  let count ← lockedPure (some name) (fun _ => .clear name) fun q => .ok q.purge
  return (count, none)

structure RetryEnv where
  now : Time
  enqueue : Env

def retryCopy (name : String) (msg : Message) (now : Time) : Message :=
  { msg with queue := name, attempt := 0, visibleAt := now }

/-- One round of `RetryDLQ`: the record moves first, each failure is undone, and
the head leaves the list last. -/
def retryHead (name : String) (q : Option String) (msg : Message) (env : RetryEnv) :
    Prog (Option Err) := do
  let msgCopy := retryCopy name msg env.now
  if let some err ← saveMessage msgCopy then return some err
  if let some err ← deleteMessage (dlqName name) msg.id then
    if let some rbErr ← deleteMessage name msgCopy.id then
      return some (.retryRollback msg.id (dlqName name) err name rbErr)
    return some err
  if let some err ← enqueue q msgCopy env.enqueue then
    if let some rbErr ← saveMessage msg then
      return some (.retryRestore msgCopy.id name err (dlqName name) rbErr)
    if let some rbErr ← deleteMessage name msgCopy.id then
      return some (.retryUnsave msgCopy.id name err rbErr)
    return some err
  lockedPure (some (dlqName name)) (fun _ => .silent) fun dlq =>
    .ok ({ dlq with messages := dlq.messages.tail }, ())
  return none

/-- The loop of `RetryDLQ`, which runs under the DLQ's lock: the list it empties
bounds the rounds. -/
def retryLoop (name : String) (q : Option String) (env : Nat → RetryEnv) :
    Nat → Nat → Prog (Nat × Option Err)
  | 0, retried => return (retried, none)
  | rounds + 1, retried => do
      match ← look fun w => (w.queue? (dlqName name)).bind fun dlq => dlq.messages.head? with
      | none => return (retried, none)
      | some msg =>
          match ← retryHead name q msg (env retried) with
          | some err => return (retried, some err)
          | none => retryLoop name q env rounds (retried + 1)

def retryDLQ (name : String) (env : Nat → RetryEnv) : Prog (Nat × Option Err) := do
  if !(← getQueue (dlqName name)) then return (0, none)
  let q ← getOrCreateQueue name
  let pending ← look fun w =>
    ((w.queue? (dlqName name)).map fun dlq => dlq.messages.length).getD 0
  retryLoop name q env pending 0

end QwerQ
