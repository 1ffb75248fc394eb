import QwerQ.Message

/-! Consumer groups: a ledger of their own over clones of the queue's messages. A clone is
one object, however many hold a pointer to it: the ledger, a member's channel, the
goroutine that has received it, the caller of a nack.

`made` and `cloned` number the channels and the objects the group has made. `sent`,
`unread` and `rejected` are history variables that no method reads: every send on a
member's channel, oldest first; those whose receiver has yet to read the object, with
the object as it is now; the objects that a nack has given to its caller. -/
namespace QwerQ

/-- A clone, and which object it is. -/
structure GroupMessage extends Message where
  object : Nat
  deriving DecidableEq

/-- A channel holds a pointer. -/
structure GroupMember where
  id : String
  ch : Nat
  visTimeout : Duration
  lastHeartbeat : Time
  buffer : Option Nat
  deriving DecidableEq

structure InFlightEntry where
  msg : GroupMessage
  memberID : String
  deriving DecidableEq

abbrev InFlightEntry.message (entry : InFlightEntry) : Message := entry.msg.toMessage

structure GroupSend where
  ch : Nat
  memberID : String
  msg : GroupMessage
  deriving DecidableEq

structure ConsumerGroup where
  name : String
  queueName : String
  members : List GroupMember
  nextIdx : Nat
  messages : List GroupMessage
  inFlight : KeyedMap fun entry : InFlightEntry => entry.msg.id
  heartbeatTimeout : Duration
  made : Nat
  cloned : Nat
  sent : List GroupSend
  unread : List GroupSend
  rejected : List Nat
  deriving DecidableEq

def defaultHeartbeatTimeout : Duration := 10 * nanosecondsPerSecond

namespace ConsumerGroup

def new (name queueName : String) : ConsumerGroup where
  name := name
  queueName := queueName
  members := []
  nextIdx := 0
  messages := []
  inFlight := ∅
  heartbeatTimeout := defaultHeartbeatTimeout
  made := 0
  cloned := 0
  sent := []
  unread := []
  rejected := []

def leased (now : Time) (m : GroupMember) (msg : GroupMessage) : GroupMessage :=
  { msg with attempt := msg.attempt + 1, visibleAt := now + m.visTimeout }

/-- The pointer goes on the member's channel, `rest` stays pending, and only then the lease
is written to the object: a receiver can see it before and after. -/
def handOver (now : Time) (idx : Nat) (m : GroupMember) (msg : GroupMessage)
    (rest : List GroupMessage) (g : ConsumerGroup) : ConsumerGroup :=
  { g with
    members := g.members.set idx { m with buffer := some msg.object }
    messages := rest
    inFlight := g.inFlight.insert ⟨leased now m msg, m.id⟩
    nextIdx := (idx + 1) % g.members.length
    sent := g.sent ++ [⟨m.ch, m.id, msg⟩]
    unread := g.unread ++ [⟨m.ch, m.id, msg⟩] }

/-- The variables of one scan over the members: `msg` is the head the scan was
started for, `rx` the receives still to come. -/
structure Scan where
  group : ConsumerGroup
  msg : GroupMessage
  delivered : Bool
  rx : List Bool
  deriving DecidableEq

def Scan.take (now : Time) (idx : Nat) (m : GroupMember) (rest : List GroupMessage) (s : Scan) :
    Scan :=
  { s with
    group := s.group.handOver now idx m s.msg rest
    msg := leased now m s.msg
    delivered := true }

/-- The send case of the select in `tryDeliver`. The head is cut off whatever it
is by now: on an empty list `g.messages[1:]` is out of bounds. -/
def accept (now : Time) (idx : Nat) (m : GroupMember) (s : Scan) : Go Scan :=
  match s.group.messages with
  | [] => .error .sliceBounds
  | _ :: rest => .ok (s.take now idx m rest)

/-- The member loop of `tryDeliver`. Its `break` leaves the select and not the
loop, so the scan goes on after a member has accepted the message. -/
def scan (now : Time) : List Nat → Scan → Go Scan
  | [], s => .ok s
  | j :: js, s =>
      let idx := (s.group.nextIdx + j) % s.group.members.length
      match s.group.members[idx]? with
      | none => .error .indexOutOfRange
      | some m =>
          if s.rx.headD false || m.buffer.isNone then do
            let s ← accept now idx m { s with rx := s.rx.tail }
            scan now js s
          else scan now js { s with rx := s.rx.tail }

/-- The message loop of `tryDeliver`. Every round that goes on has cut the
pending list, so the length of the list bounds the rounds. -/
def deliverLoop (now : Time) : Nat → List Bool → ConsumerGroup → Go ConsumerGroup
  | 0, _, g => .ok g
  | rounds + 1, rx, g =>
      match g.messages with
      | [] => .ok g
      | msg :: _ =>
          if now < msg.visibleAt then .ok g
          else do
            let s ← scan now (List.range g.members.length) ⟨g, msg, false, rx⟩
            if s.delivered then deliverLoop now rounds s.rx s.group else .ok s.group

def tryDeliver (pass : Pass) (g : ConsumerGroup) : Go ConsumerGroup :=
  if g.members.isEmpty || g.messages.isEmpty then .ok g
  else deliverLoop pass.now g.messages.length pass.rx g

def addMember (memberID : String) (visTimeout : Duration) (now : Time) (pass : Pass)
    (g : ConsumerGroup) : Go (ConsumerGroup × Nat) := do
  let m : GroupMember := ⟨memberID, g.made, visTimeout, now, none⟩
  let g' ← tryDeliver pass { g with members := g.members ++ [m], made := g.made + 1 }
  return (g', g.made)

/-- The clock is read once for each message that is put back. -/
def requeueForMemberLocked (memberID : String) (clock : String → Time) (order : List String)
    (g : ConsumerGroup) : ConsumerGroup :=
  (g.inFlight.inOrder order).foldl (fun g entry =>
    if entry.memberID = memberID then
      { g with
        inFlight := g.inFlight.erase entry.msg.id
        messages := g.messages ++ [{ entry.msg with visibleAt := clock entry.msg.id }] }
    else g) g

def requeueForMember (memberID : String) (clock : String → Time) (order : List String)
    (pass : Pass) (g : ConsumerGroup) : Go ConsumerGroup :=
  (g.requeueForMemberLocked memberID clock order).tryDeliver pass

/-- `nextIdx` is only reset while members remain. -/
def setMembers (members : List GroupMember) (g : ConsumerGroup) : ConsumerGroup :=
  { g with
    members := members
    nextIdx := if members.length ≤ g.nextIdx ∧ 0 < members.length then 0 else g.nextIdx }

/-- Removes the first member of that id. Returns whether the group is now empty. -/
def removeMember (memberID : String) (clock : String → Time) (order : List String) (pass : Pass)
    (g : ConsumerGroup) : Go (ConsumerGroup × Bool) :=
  match g.members.findIdx? (fun m => m.id = memberID) with
  | none => .ok (g, g.members.isEmpty)
  | some i => do
      let g ← (g.setMembers (g.members.eraseIdx i)).requeueForMember memberID clock order pass
      return (g, g.members.isEmpty)

/-- The fields of the group's own copy: no ordering key, visible at once. -/
def clone (msg : Message) : Message where
  id := msg.id
  queue := msg.queue
  payload := msg.payload
  headers := msg.headers
  attempt := 0
  publishedAt := msg.publishedAt
  visibleAt := 0
  orderingKey := ""
  sequence := 0

def enqueue (msg : Message) (pass : Pass) (g : ConsumerGroup) : Go ConsumerGroup :=
  tryDeliver pass { g with
    messages := g.messages ++ [⟨clone msg, g.cloned⟩]
    cloned := g.cloned + 1 }

def ackWithHook (messageID : String) (beforeAck : Hook σ) (pass : Pass) (g : ConsumerGroup)
    (s : σ) : Go ((ConsumerGroup × σ) × Bool × Option Err) :=
  match g.inFlight.find? messageID with
  | none => .ok ((g, s), false, none)
  | some entry =>
      match beforeAck entry.message s with
      | (some err, s) => .ok ((g, s), false, some err)
      | (none, s) => do
          let g ← tryDeliver pass { g with inFlight := g.inFlight.erase messageID }
          return ((g, s), true, none)

def nackDrop (messageID : String) (beforeDrop : Hook σ) (msg : Message) (g : ConsumerGroup)
    (s : σ) : (ConsumerGroup × σ) × NackResult × Option Err :=
  let result := ⟨true, some msg, false, true⟩
  match beforeDrop msg s with
  | (some err, s) => ((g, s), result, some err)
  | (none, s) => (({ g with inFlight := g.inFlight.erase messageID }, s), result, none)

def nackToDLQ (messageID : String) (msg : Message) (g : ConsumerGroup) (s : σ) :
    (ConsumerGroup × σ) × NackResult × Option Err :=
  (({ g with inFlight := g.inFlight.erase messageID }, s), ⟨true, some msg, true, false⟩, none)

def nackRequeue (messageID : String) (now : Time) (pass : Pass) (msg : GroupMessage)
    (g : ConsumerGroup) (s : σ) : Go ((ConsumerGroup × σ) × NackResult × Option Err) := do
  let msg := { msg with visibleAt := now }
  let g ← tryDeliver pass { g with
    inFlight := g.inFlight.erase messageID
    messages := g.messages ++ [msg] }
  return ((g, s), ⟨true, some msg.toMessage, false, false⟩, none)

def nackWithHooks (messageID : String) (requeue : Bool) (maxRetries : UInt32)
    (policy : FailurePolicy) (beforeDrop : Hook σ) (now : Time) (pass : Pass)
    (g : ConsumerGroup) (s : σ) : Go ((ConsumerGroup × σ) × NackResult × Option Err) :=
  match g.inFlight.find? messageID with
  | none => .ok ((g, s), ⟨false, none, false, false⟩, none)
  | some entry =>
      match nackVerdict policy maxRetries requeue entry.msg.attempt with
      | .toDLQ => .ok (g.nackToDLQ messageID entry.message s)
      | .drop => .ok (g.nackDrop messageID beforeDrop entry.message s)
      | .requeue => g.nackRequeue messageID now pass entry.msg s

def objectOf (messageID : String) (g : ConsumerGroup) : Nat :=
  ((g.inFlight.find? messageID).map fun entry => entry.msg.object).getD 0

theorem objectOf_eq {g : ConsumerGroup} {id : String} {entry : InFlightEntry}
    (h : g.inFlight.find? id = some entry) : g.objectOf id = entry.msg.object := by
  rw [objectOf, h]
  rfl

section Settlement
variable {g g' : ConsumerGroup} {id : String} {requeue : Bool} {maxRetries : UInt32}
  {policy : FailurePolicy} {hook : Hook σ} {now : Time} {pass : Pass} {s s' : σ}

theorem ackWithHook_cases {result : Bool × Option Err}
    (h : g.ackWithHook id hook pass s = .ok ((g', s'), result)) :
    AckOutcome ((g.inFlight.find? id).map InFlightEntry.message) hook
      (tryDeliver pass { g with inFlight := g.inFlight.erase id }) g s g' s' result := by
  unfold ackWithHook at h
  split at h
  · rename_i hnone
    cases h
    exact .missing (by rw [hnone, Option.map_none])
  · rename_i entry hentry
    have hfind : (g.inFlight.find? id).map InFlightEntry.message = some entry.message := by
      rw [hentry, Option.map_some]
    split at h
    · rename_i hhook
      cases h
      exact .refused hfind hhook
    · rename_i hhook
      simp only [Go.bind_eq_ok, Go.pure_eq] at h
      have ⟨_, hpass, hret⟩ := h
      cases hret
      exact .settled hfind hhook hpass

theorem nackWithHooks_cases {result : NackResult × Option Err}
    (h : g.nackWithHooks id requeue maxRetries policy hook now pass s = .ok ((g', s'), result)) :
    NackOutcome ((g.inFlight.find? id).map InFlightEntry.message) hook g s
      (fun msg => nackVerdict policy maxRetries requeue msg.attempt) Hook.none now
      { g with inFlight := g.inFlight.erase id }
      (fun copy => tryDeliver pass { g with
        inFlight := g.inFlight.erase id
        messages := g.messages ++ [⟨copy, g.objectOf id⟩] }) g' s' result := by
  unfold nackWithHooks at h
  split at h
  · rename_i hnone
    cases h
    exact .missing (by rw [hnone, Option.map_none])
  · rename_i entry hentry
    have hfind : (g.inFlight.find? id).map InFlightEntry.message = some entry.message := by
      rw [hentry, Option.map_some]
    split at h
    · rename_i hverdict
      cases h
      exact .toDLQ hfind hverdict
    · rename_i hverdict
      unfold nackDrop at h
      split at h
      · rename_i hhook
        cases h
        exact .keptFromDrop hfind hverdict hhook
      · rename_i hhook
        cases h
        exact .dropped hfind hverdict hhook
    · rename_i hverdict
      simp only [nackRequeue, Go.bind_eq_ok, Go.pure_eq] at h
      have ⟨_, hpass, hret⟩ := h
      cases hret
      refine .requeued hfind hverdict rfl ?_
      rwa [objectOf_eq hentry]

end Settlement

def heartbeat (memberID : String) (now : Time) (g : ConsumerGroup) : ConsumerGroup × Bool :=
  match g.members.findIdx? (fun m => m.id = memberID) with
  | none => (g, false)
  | some i => ({ g with members := g.members.modify i fun m => { m with lastHeartbeat := now } },
      true)

def isDead (now : Time) (g : ConsumerGroup) (m : GroupMember) : Bool :=
  g.heartbeatTimeout < now - m.lastHeartbeat

def reapDeadMembers (now : Time) (clock : String → Time) (order : List String) (pass : Pass)
    (g : ConsumerGroup) : Go (ConsumerGroup × List String) := do
  let dead := g.members.filter (g.isDead now)
  let alive := g.members.filter fun m => !g.isDead now m
  let g := dead.foldl (fun g m => g.requeueForMemberLocked m.id clock order) g
  let g ← (g.setMembers alive).tryDeliver pass
  return (g, dead.map GroupMember.id)

def expire (now : Time) (g : ConsumerGroup) (entry : InFlightEntry) : ConsumerGroup :=
  if entry.msg.visibleAt < now then
    { g with
      inFlight := g.inFlight.erase entry.msg.id
      messages := g.messages ++ [{ entry.msg with visibleAt := now }] }
  else g

def requeueExpired (sweep : Sweep) (g : ConsumerGroup) : Go ConsumerGroup :=
  ((g.inFlight.inOrder sweep.order).foldl (expire sweep.now) g).tryDeliver sweep.pass

def receive (ch : Nat) (g : ConsumerGroup) : ConsumerGroup :=
  { g with members := g.members.map fun m => if m.ch = ch then { m with buffer := none } else m }

end ConsumerGroup
end QwerQ
