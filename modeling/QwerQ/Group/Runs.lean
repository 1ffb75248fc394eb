import QwerQ.Group.Delivery

/-! Runs of a consumer group. Every method is a change of the ledger, which
`effect` gives in closed form, followed by at most one delivery pass. -/
namespace QwerQ.ConsumerGroup
variable {g : ConsumerGroup}

inductive Event where
  | accepted (msg : Message)
  | sent (send : GroupSend)
  | settled (id : String)
  | read (send : GroupSend)
  | assigned (unread : List GroupSend)
  deriving DecidableEq

/-- What others do with the group's objects: the goroutine that serves a channel copies the
next one into a frame, or ends; the caller of a nack writes the queue of the object it was
given. -/
inductive Use where
  | read (ch : Nat)
  | abandon (ch : Nat)
  | assign (object : Nat) (queue : String)

def assign (object : Nat) (queue : String) (send : GroupSend) : GroupSend :=
  if send.msg.object = object then { send with msg := { send.msg with queue := queue } } else send

def unreadAfter : Use → ConsumerGroup → List GroupSend
  | .read ch, g => g.unread.eraseP fun send => send.ch = ch
  | .abandon ch, g => g.unread.filter fun send => send.ch ≠ ch
  | .assign object queue, g =>
      if object ∈ g.rejected then g.unread.map (assign object queue) else g.unread

/-- A read gives the object as it is then. An assignment names the sends of the object that
nobody has read yet. -/
def useEvents : Use → ConsumerGroup → List Event
  | .read ch, g => ((g.unread.find? fun send => send.ch = ch).map .read).toList
  | .abandon _, _ => []
  | .assign object _, g =>
      if object ∈ g.rejected then [.assigned (g.unread.filter fun send => send.msg.object = object)]
      else []

/-- A call of a method, a member's receive, or a use of an object. A hook is given by the
error it returns, if any; `clock` gives the readings that requeueing takes. -/
inductive Op where
  | enqueue (msg : Message) (pass : Pass)
  | addMember (memberID : String) (visTimeout : Duration) (now : Time) (pass : Pass)
  | removeMember (memberID : String) (clock : String → Time) (order : List String) (pass : Pass)
  | receive (ch : Nat)
  | ack (id : String) (hook : Option Err) (pass : Pass)
  | nack (id : String) (requeue : Bool) (maxRetries : UInt32) (policy : FailurePolicy)
      (hook : Option Err) (now : Time) (pass : Pass)
  | heartbeat (memberID : String) (now : Time)
  | reapDeadMembers (now : Time) (clock : String → Time) (order : List String) (pass : Pass)
  | requeueExpired (sweep : Sweep)
  | use (use : Use)

def nackEvents (id : String) (result : NackResult) (err : Option Err) : List Event :=
  if err.isNone && (result.toDLQ || result.dropped) then [.settled id] else []

def reject (object : Nat) (g : ConsumerGroup) : ConsumerGroup :=
  { g with rejected := g.rejected ++ [object] }

def apply : Op → ConsumerGroup → Go (ConsumerGroup × List Event)
  | .enqueue msg pass, g => do
      let g ← g.enqueue msg pass
      return (g, [.accepted msg])
  | .addMember memberID visTimeout now pass, g => do
      let (g, _) ← g.addMember memberID visTimeout now pass
      return (g, [])
  | .removeMember memberID clock order pass, g => do
      let (g, _) ← g.removeMember memberID clock order pass
      return (g, [])
  | .receive ch, g => .ok (g.receive ch, [])
  | .ack id hook pass, g => do
      let ((g, _), ok, _) ← g.ackWithHook id (fun _ s => (hook, s)) pass ()
      return (g, if ok then [.settled id] else [])
  | .nack id requeue maxRetries policy hook now pass, g => do
      let ((g', _), result, err) ← g.nackWithHooks id requeue maxRetries policy
        (fun _ s => (hook, s)) now pass ()
      return (if result.toDLQ then g'.reject (g.objectOf id) else g', nackEvents id result err)
  | .heartbeat memberID now, g => .ok ((g.heartbeat memberID now).1, [])
  | .reapDeadMembers now clock order pass, g => do
      let (g, _) ← g.reapDeadMembers now clock order pass
      return (g, [])
  | .requeueExpired sweep, g => do
      let g ← g.requeueExpired sweep
      return (g, [])
  | .use use, g => .ok ({ g with unread := g.unreadAfter use }, g.useEvents use)

/-- What a method does before it delivers, the delivery pass it then makes, if
any, and what it reports. -/
structure Effect where
  group : ConsumerGroup
  pass : Option Pass
  reports : List Event

def Effect.none (g : ConsumerGroup) : Effect := ⟨g, .none, []⟩

def settle (id : String) (pass : Option Pass) (g : ConsumerGroup) : Effect :=
  ⟨{ g with inFlight := g.inFlight.erase id }, pass, [.settled id]⟩

def effect : Op → ConsumerGroup → Effect
  | .enqueue msg pass, g =>
      ⟨{ g with
          messages := g.messages ++ [⟨clone msg, g.cloned⟩]
          cloned := g.cloned + 1 }, some pass, [.accepted msg]⟩
  | .addMember memberID visTimeout now pass, g =>
      ⟨{ g with
          members := g.members ++ [⟨memberID, g.made, visTimeout, now, none⟩]
          made := g.made + 1 }, some pass, []⟩
  | .removeMember memberID clock order pass, g =>
      match g.members.findIdx? (fun m => m.id = memberID) with
      | none => .none g
      | some i =>
          ⟨(g.setMembers (g.members.eraseIdx i)).requeueForMemberLocked memberID clock order,
            some pass, []⟩
  | .receive ch, g => .none (g.receive ch)
  | .ack id hook pass, g =>
      match g.inFlight.find? id, hook with
      | some _, none => g.settle id (some pass)
      | _, _ => .none g
  | .nack id requeue maxRetries policy hook now pass, g =>
      match g.inFlight.find? id with
      | none => .none g
      | some entry =>
          match nackVerdict policy maxRetries requeue entry.msg.attempt, hook with
          | .toDLQ, _ => (g.reject entry.msg.object).settle id none
          | .drop, none => g.settle id none
          | .drop, some _ => .none g
          | .requeue, _ =>
              ⟨{ g with
                  inFlight := g.inFlight.erase id
                  messages := g.messages ++ [{ entry.msg with visibleAt := now }] }, some pass, []⟩
  | .heartbeat memberID now, g => .none (g.heartbeat memberID now).1
  | .reapDeadMembers now clock order pass, g =>
      ⟨((g.members.filter (g.isDead now)).foldl
          (fun g m => g.requeueForMemberLocked m.id clock order) g).setMembers
          (g.members.filter fun m => !g.isDead now m), some pass, []⟩
  | .requeueExpired sweep, g =>
      ⟨(g.inFlight.inOrder sweep.order).foldl (expire sweep.now) g, some sweep.pass, []⟩
  | .use use, g => ⟨{ g with unread := g.unreadAfter use }, none, g.useEvents use⟩

def Effect.finish (e : Effect) : Go (ConsumerGroup × List Event) :=
  match e.pass with
  | .none => .ok (e.group, e.reports)
  | some pass => do
      let g ← e.group.tryDeliver pass
      return (g, e.reports)

theorem apply_eq_finish (op : Op) (g : ConsumerGroup) : g.apply op = (g.effect op).finish := by
  cases op with
  | enqueue | receive | heartbeat | requeueExpired | use => rfl
  | addMember memberID visTimeout now pass =>
    simp only [apply, addMember, effect, Effect.finish, bind_assoc, pure_bind]
  | removeMember memberID clock order pass =>
    simp only [apply, removeMember, effect]
    cases g.members.findIdx? (fun m => m.id = memberID) with
    | none => rfl
    | some i => simp only [requeueForMember, Effect.finish, bind_assoc, pure_bind]
  | ack id hook pass =>
    simp only [apply, ackWithHook, effect]
    cases g.inFlight.find? id with
    | none => rfl
    | some entry =>
      cases hook with
      | some err => rfl
      | none => simp only [settle, Effect.finish, bind_assoc, pure_bind, if_true]
  | nack id requeue maxRetries policy hook now pass =>
    simp only [apply, nackWithHooks, effect, objectOf]
    cases g.inFlight.find? id with
    | none => rfl
    | some entry =>
      simp only
      cases nackVerdict policy maxRetries requeue entry.msg.attempt with
      | toDLQ => rfl
      | drop => cases hook <;> rfl
      | requeue => simp only [nackRequeue, Effect.finish, bind_assoc, pure_bind]; rfl
  | reapDeadMembers now clock order pass =>
    simp only [apply, reapDeadMembers, effect, Effect.finish, bind_assoc, pure_bind]

theorem apply_ok {op : Op} {g' : ConsumerGroup} {reports : List Event}
    (h : g.apply op = .ok (g', reports)) : reports = (g.effect op).reports ∧
      (g' = (g.effect op).group ∨ ∃ pass, (g.effect op).group.tryDeliver pass = .ok g') := by
  rw [apply_eq_finish, Effect.finish] at h
  split at h
  · cases h
    exact ⟨rfl, .inl rfl⟩
  · rename_i pass _
    rw [Go.bind_eq_ok] at h
    obtain ⟨_, hpass, hret⟩ := h
    cases hret
    exact ⟨rfl, .inr ⟨pass, hpass⟩⟩

end QwerQ.ConsumerGroup
