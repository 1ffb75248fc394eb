import QwerQ.Group

/-! The queue and its methods, each as it runs under the queue's lock. `sent` is
a history variable that no method reads: every send on a consumer's channel,
oldest first. `made` numbers the channels the queue has made; a channel's number
is its identity. -/
namespace QwerQ

structure Consumer where
  ch : Nat
  visibilityTimeout : Duration
  buffer : Option Message
  deriving DecidableEq

/-- A send on a consumer's channel: the clone that was sent, the clock reading of
the delivery pass and the consumer's timeout. -/
structure Delivery where
  ch : Nat
  msg : Message
  now : Time
  timeout : Duration
  deriving DecidableEq

structure Queue where
  name : String
  messages : List Message
  inFlight : KeyedMap Message.id
  consumers : List Consumer
  nextIdx : Nat
  maxSize : Int
  failurePolicy : FailurePolicy
  maxRetries : UInt32
  keyAssignments : KeyedMap (Prod.fst : String × Nat → String)
  groups : KeyedMap ConsumerGroup.name
  made : Nat
  sent : List Delivery
  deriving DecidableEq

def defaultMaxQueueSize : Int := 10000

/-- FNV-1a over the bytes of a string, as `hash/fnv` computes it. -/
def fnv32a (text : String) : UInt32 :=
  text.toUTF8.data.toList.foldl (fun hash byte => (hash ^^^ byte.toUInt32) * 16777619) 2166136261

/-- What an operation that ends in a fan-out meets: the queue's own delivery pass
and one for each group. -/
structure Env where
  pass : Pass
  group : String → Pass

namespace Queue

def new (name : String) : Queue where
  name := name
  messages := []
  inFlight := ∅
  consumers := []
  nextIdx := 0
  maxSize := defaultMaxQueueSize
  failurePolicy := .dlq
  maxRetries := defaultMaxRetries
  keyAssignments := ∅
  groups := ∅
  made := 0
  sent := []

def setMaxSize (max : Int) (q : Queue) : Queue := { q with maxSize := max }
def setFailurePolicy (policy : FailurePolicy) (q : Queue) : Queue := { q with failurePolicy := policy }
def setMaxRetries (max : UInt32) (q : Queue) : Queue := { q with maxRetries := max }

/-- What a consumer is sent: a copy that already counts this delivery. -/
def cloneMessage (msg : Message) : Message := { msg with attempt := msg.attempt + 1 }

def send (c : Consumer) (msg : Message) (now : Time) (q : Queue) : Queue :=
  { q with
    consumers := q.consumers.map fun other =>
      if other.ch = c.ch then { other with buffer := some (cloneMessage msg) } else other
    sent := q.sent ++ [⟨c.ch, cloneMessage msg, now, c.visibilityTimeout⟩] }

/-- The consumer a key is assigned to, assigning one by hash on first use. -/
def assign (key : String) (q : Queue) : Go (Nat × Queue) :=
  match q.keyAssignments.find? key with
  | some (_, ch) => .ok (ch, q)
  | none =>
      match q.consumers[(fnv32a key).toNat % q.consumers.length]? with
      | none => .error .indexOutOfRange
      | some c => .ok (c.ch, { q with keyAssignments := q.keyAssignments.insert (key, c.ch) })

/-- Returns the message as delivered, or `none` when the assigned consumer is
full. A consumer that is no longer registered has a closed channel. -/
def deliverOrdered (msg : Message) (now : Time) (rx : List Bool) (q : Queue) :
    Go (Option Message × List Bool × Queue) :=
  match q.assign msg.orderingKey with
  | .error panic => .error panic
  | .ok (ch, q) =>
      match q.consumers.find? (fun c => c.ch = ch) with
      | none => .error .sendOnClosedChannel
      | some c =>
          if rx.headD false || c.buffer.isNone then
            .ok (some { msg with visibleAt := now + c.visibilityTimeout }, rx.tail,
              q.send c msg now)
          else .ok (none, rx.tail, q)

/-- The consumer loop of `deliverRoundRobin`, over the offsets still to try. -/
def roundRobin (msg : Message) (now : Time) :
    List Nat → List Bool → Queue → Go (Option Message × List Bool × Queue)
  | [], rx, q => .ok (none, rx, q)
  | j :: js, rx, q =>
      let idx := (q.nextIdx + j) % q.consumers.length
      match q.consumers[idx]? with
      | none => .error .indexOutOfRange
      | some c =>
          if rx.headD false || c.buffer.isNone then
            .ok (some { msg with visibleAt := now + c.visibilityTimeout }, rx.tail,
              { q.send c msg now with nextIdx := (idx + 1) % q.consumers.length })
          else roundRobin msg now js rx.tail q

def deliverRoundRobin (msg : Message) (now : Time) (rx : List Bool) (q : Queue) :
    Go (Option Message × List Bool × Queue) :=
  roundRobin msg now (List.range q.consumers.length) rx q

def deliver (msg : Message) (now : Time) (rx : List Bool) (q : Queue) :
    Go (Option Message × List Bool × Queue) :=
  if msg.orderingKey ≠ "" then q.deliverOrdered msg now rx else q.deliverRoundRobin msg now rx

/-- The loop of `tryDeliver`; the list is the queue's pending list. -/
def deliverLoop (now : Time) : List Message → List Bool → Queue → Go Queue
  | [], _, q => .ok q
  | msg :: rest, rx, q =>
      if now < msg.visibleAt then .ok q
      else
        match q.deliver msg now rx with
        | .error panic => .error panic
        | .ok (none, _, q) => .ok q
        | .ok (some msg, rx, q) => deliverLoop now rest rx { q with
            messages := rest
            inFlight := q.inFlight.insert { msg with attempt := msg.attempt + 1 } }

def tryDeliver (pass : Pass) (q : Queue) : Go Queue :=
  if q.consumers.isEmpty || q.messages.isEmpty then .ok q
  else deliverLoop pass.now q.messages pass.rx q

/-- Apply a group method to every group. The groups do not share state, so the
order in which the map is visited does not matter. -/
def forGroups (method : ConsumerGroup → Go ConsumerGroup) (q : Queue) : Go Queue :=
  q.groups.entries.foldlM (fun q g => do
    let g ← method g
    return { q with groups := q.groups.insert g }) q

def fanOut (msg : Message) (group : String → Pass) (q : Queue) : Go Queue :=
  q.forGroups fun g => g.enqueue msg (group g.name)

def full (q : Queue) : Bool := 0 < q.maxSize ∧ q.maxSize ≤ q.messages.length

/-- It bypasses the max size check for recovery. -/
def enqueueDirect (msg : Message) (env : Env) (q : Queue) : Go Queue := do
  let q ← tryDeliver env.pass { q with messages := q.messages ++ [msg] }
  q.fanOut msg env.group

def enqueue (msg : Message) (env : Env) (q : Queue) : Go (Queue × Option Err) :=
  if q.full then .ok (q, some .queueFull)
  else do
    let q ← q.enqueueDirect msg env
    return (q, none)

def dequeue (visibilityTimeout : Duration) (pass : Pass) (q : Queue) : Go (Queue × Nat) := do
  let c : Consumer := ⟨q.made, visibilityTimeout, none⟩
  let q' ← tryDeliver pass { q with consumers := q.consumers ++ [c], made := q.made + 1 }
  return (q', q.made)

def removeConsumer (ch : Nat) (q : Queue) : Queue :=
  if q.consumers.any (fun c => c.ch = ch) then
    { q with
      keyAssignments := q.keyAssignments.filter fun assignment => assignment.2 ≠ ch
      consumers := q.consumers.eraseP fun c => c.ch = ch }
  else q

def receive (ch : Nat) (q : Queue) : Queue :=
  { q with consumers := q.consumers.map fun c => if c.ch = ch then { c with buffer := none } else c }

def ackWithHook (messageID : String) (beforeAck : Hook σ) (pass : Pass) (q : Queue) (s : σ) :
    Go ((Queue × σ) × Bool × Option Err) :=
  match q.inFlight.find? messageID with
  | none => .ok ((q, s), false, none)
  | some msg =>
      match beforeAck msg s with
      | (some err, s) => .ok ((q, s), false, some err)
      | (none, s) => do
          let q ← tryDeliver pass { q with inFlight := q.inFlight.erase messageID }
          return ((q, s), true, none)

def nackDrop (messageID : String) (beforeDrop : Hook σ) (msg : Message) (q : Queue) (s : σ) :
    (Queue × σ) × NackResult × Option Err :=
  let result := ⟨true, some msg, false, true⟩
  match beforeDrop msg s with
  | (some err, s) => ((q, s), result, some err)
  | (none, s) => (({ q with inFlight := q.inFlight.erase messageID }, s), result, none)

def nackToDLQ (messageID : String) (msg : Message) (q : Queue) (s : σ) :
    (Queue × σ) × NackResult × Option Err :=
  (({ q with inFlight := q.inFlight.erase messageID }, s), ⟨true, some msg, true, false⟩, none)

/-- The hook sees a copy with the new visibility time before anything changes. -/
def nackRequeue (messageID : String) (beforeRequeue : Hook σ) (now : Time) (pass : Pass)
    (msg : Message) (q : Queue) (s : σ) : Go ((Queue × σ) × NackResult × Option Err) :=
  let copy := { msg with visibleAt := now }
  match beforeRequeue copy s with
  | (some err, s) => .ok ((q, s), ⟨true, some msg, false, false⟩, some err)
  | (none, s) => do
      let q ← tryDeliver pass { q with
        inFlight := q.inFlight.erase messageID
        messages := q.messages ++ [copy] }
      return ((q, s), ⟨true, some copy, false, false⟩, none)

def nackWithHooks (messageID : String) (requeue : Bool) (beforeDrop beforeRequeue : Hook σ)
    (now : Time) (pass : Pass) (q : Queue) (s : σ) :
    Go ((Queue × σ) × NackResult × Option Err) :=
  match q.inFlight.find? messageID with
  | none => .ok ((q, s), ⟨false, none, false, false⟩, none)
  | some msg =>
      match nackVerdict q.failurePolicy q.maxRetries requeue msg.attempt with
      | .toDLQ => .ok (q.nackToDLQ messageID msg s)
      | .drop => .ok (q.nackDrop messageID beforeDrop msg s)
      | .requeue => q.nackRequeue messageID beforeRequeue now pass msg s

section Settlement
variable {q q' : Queue} {id : String} {requeue : Bool} {hook requeueHook : Hook σ} {now : Time}
  {pass : Pass} {s s' : σ}

theorem ackWithHook_cases {result : Bool × Option Err}
    (h : q.ackWithHook id hook pass s = .ok ((q', s'), result)) :
    AckOutcome (q.inFlight.find? id) hook
      (tryDeliver pass { q with inFlight := q.inFlight.erase id }) q s q' s' result := by
  unfold ackWithHook at h
  split at h
  · rename_i hnone
    cases h
    exact .missing hnone
  · rename_i msg hfind
    split at h
    · rename_i hhook
      cases h
      exact .refused hfind hhook
    · rename_i hhook
      simp only [Go.bind_eq_ok, Go.pure_eq] at h
      have ⟨_, hpass, hret⟩ := h
      cases hret
      exact .settled hfind hhook hpass

theorem nackWithHooks_cases {result : NackResult × Option Err}
    (h : q.nackWithHooks id requeue hook requeueHook now pass s = .ok ((q', s'), result)) :
    NackOutcome (q.inFlight.find? id) hook q s
      (fun msg => nackVerdict q.failurePolicy q.maxRetries requeue msg.attempt) requeueHook now
      { q with inFlight := q.inFlight.erase id }
      (fun copy => tryDeliver pass { q with
        inFlight := q.inFlight.erase id
        messages := q.messages ++ [copy] }) q' s' result := by
  unfold nackWithHooks at h
  split at h
  · rename_i hnone
    cases h
    exact .missing hnone
  · rename_i msg hfind
    split at h
    · rename_i hverdict
      cases h
      exact .toDLQ hfind hverdict
    · rename_i hverdict
      unfold nackDrop at h
      split at h
      · rename_i hhook
        cases h
        exact .keptFromDrop hfind hverdict hhook
      · rename_i hhook
        cases h
        exact .dropped hfind hverdict hhook
    · rename_i hverdict
      simp only [nackRequeue] at h
      split at h
      · rename_i hhook
        cases h
        exact .keptFromRequeue hfind hverdict hhook
      · rename_i hhook
        simp only [Go.bind_eq_ok, Go.pure_eq] at h
        have ⟨_, hpass, hret⟩ := h
        cases hret
        exact .requeued hfind hverdict hhook hpass

end Settlement

def expire (now : Time) (q : Queue) (msg : Message) : Queue :=
  if msg.visibleAt < now then
    { q with
      inFlight := q.inFlight.erase msg.id
      messages := q.messages ++ [{ msg with visibleAt := now }] }
  else q

/-- The queue's own part of `RequeueExpired`, under its lock. -/
def requeueExpiredOwn (sweep : Sweep) (q : Queue) : Go Queue :=
  ((q.inFlight.inOrder sweep.order).foldl (expire sweep.now) q).tryDeliver sweep.pass

def requeueExpired (sweep : Sweep) (group : String → Sweep) (q : Queue) : Go Queue := do
  let q ← q.requeueExpiredOwn sweep
  q.forGroups fun g => g.requeueExpired (group g.name)

def getOrCreateGroup (groupName : String) (q : Queue) : Queue :=
  if q.groups.contains groupName then q
  else { q with groups := q.groups.insert (ConsumerGroup.new groupName q.name) }

def removeGroup (groupName : String) (q : Queue) : Queue :=
  { q with groups := q.groups.erase groupName }

/-- Returns the new deadline, or the zero time when the message is not in flight. -/
def extendVisibility (messageID : String) (extension : Duration) (now : Time) (q : Queue) :
    Queue × Time :=
  match q.inFlight.find? messageID with
  | none => (q, 0)
  | some msg =>
      ({ q with inFlight := q.inFlight.insert { msg with visibleAt := now + extension } },
        now + extension)

/-- Deletes the first pending message of that id, or else the one in flight. -/
def remove (messageID : String) (q : Queue) : Queue × Bool :=
  if q.messages.any (fun msg => msg.id = messageID) then
    ({ q with messages := q.messages.eraseP fun msg => msg.id = messageID }, true)
  else if q.inFlight.contains messageID then
    ({ q with inFlight := q.inFlight.erase messageID }, true)
  else (q, false)

/-- Groups keep their own ledgers. Returns the number of messages removed. -/
def purge (q : Queue) : Queue × Nat :=
  ({ q with messages := [], inFlight := ∅ }, q.messages.length + q.inFlight.entries.length)

def live (q : Queue) : List Message := q.messages ++ q.inFlight.entries

end Queue
end QwerQ
