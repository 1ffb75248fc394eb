import QwerQ.Library.KeyedMap
import Mathlib.Data.UInt

/-! Values shared by the whole broker: messages, clock readings, errors and the
run-time failures that end the process. Nothing recovers from a panic, so a
panicking call has no resulting state. -/
namespace QwerQ

/-- Nanoseconds since the zero `time.Time`, so that `time.Time{}` is `0`. -/
abbrev Time := Int
abbrev Duration := Int

def nanosecondsPerSecond : Duration := 1000000000

/-- The Unix epoch, on the clock that starts at the zero `time.Time`. -/
def unixEpoch : Time := 62135596800 * nanosecondsPerSecond

def unixMilli (t : Time) : Int := (t - unixEpoch) / 1000000

def ofUnixMilli (ms : Int) : Time := unixEpoch + ms * 1000000

@[simp] theorem unixMilli_ofUnixMilli (ms : Int) : unixMilli (ofUnixMilli ms) = ms := by
  unfold unixMilli ofUnixMilli
  omega

abbrev StringMap := KeyedMap (Prod.fst : String × String → String)

structure Message where
  id : String
  queue : String
  payload : List UInt8
  headers : StringMap
  attempt : UInt32
  publishedAt : Time
  visibleAt : Time
  orderingKey : String
  sequence : UInt64
  deriving DecidableEq

/-- The part of a message that no delivery, extension or requeue rewrites. -/
structure Body where
  id : String
  queue : String
  payload : List UInt8
  headers : StringMap
  publishedAt : Time
  orderingKey : String
  deriving DecidableEq

def Message.body (msg : Message) : Body :=
  ⟨msg.id, msg.queue, msg.payload, msg.headers, msg.publishedAt, msg.orderingKey⟩

@[simp] theorem Message.body_id (msg : Message) : msg.body.id = msg.id := rfl

inductive Panic where
  | indexOutOfRange
  | sliceBounds
  | sendOnClosedChannel
  | nilPointer
  deriving DecidableEq, Repr

abbrev Go := Except Panic

@[simp] theorem Go.bind_eq_ok {first : Go α} {next : α → Go β} {result : β} :
    (first >>= next) = .ok result ↔ ∃ value, first = .ok value ∧ next value = .ok result := by
  cases first <;> simp [bind, Except.bind]

@[simp] theorem Go.pure_eq (value : α) : (pure value : Go α) = .ok value := rfl

/-- `data[low:high]`. The source's bound on `high` is the capacity, which is not smaller. -/
def slice (data : List α) (low high : Int) : Go (List α) :=
  if 0 ≤ low ∧ low ≤ high ∧ high ≤ data.length then .ok ((data.take high.toNat).drop low.toNat)
  else .error .sliceBounds

theorem slice_ok {data : List α} {low high : Int}
    (h : 0 ≤ low ∧ low ≤ high ∧ high ≤ data.length) :
    slice data low high = .ok ((data.take high.toNat).drop low.toNat) :=
  if_pos h

theorem slice_from {data : List α} {low : Int} (h : 0 ≤ low ∧ low ≤ data.length) :
    slice data low data.length = .ok (data.drop low.toNat) := by
  rw [slice_ok ⟨h.1, h.2, Int.le_refl _⟩, Int.toNat_natCast, List.take_length]

theorem slice_to {data : List α} {high : Int} (h : 0 ≤ high ∧ high ≤ data.length) :
    slice data 0 high = .ok (data.take high.toNat) :=
  slice_ok ⟨Int.le_refl _, h⟩

inductive Err where
  | queueFull
  | memoryPressure
  | duplicateMessage (key : String)
  | storage (text : String)
  | joined (first second : Err)
  | retryRollback (id dlqName : String) (cause : Err) (name : String) (rollback : Err)
  | retryRestore (id name : String) (cause : Err) (dlqName : String) (rollback : Err)
  | retryUnsave (id name : String) (cause rollback : Err)
  deriving DecidableEq, Repr

/-- The texts of the errors. A storage error's text is the storage's own. -/
def Err.message : Err → String
  | .queueFull => "queue is full"
  | .memoryPressure => "memory pressure: server under load, try again later"
  | .duplicateMessage key => "duplicate message: " ++ key
  | .storage text => text
  | .joined first second => first.message ++ "\n" ++ second.message
  | .retryRollback id dlqName cause name rollback =>
      "delete DLQ message " ++ id ++ " from " ++ dlqName ++ " failed: " ++ cause.message ++
        "; rollback from " ++ name ++ " also failed: " ++ rollback.message
  | .retryRestore id name cause dlqName rollback =>
      "enqueue retry message " ++ id ++ " to " ++ name ++ " failed: " ++ cause.message ++
        "; DLQ restore to " ++ dlqName ++ " also failed: " ++ rollback.message
  | .retryUnsave id name cause rollback =>
      "enqueue retry message " ++ id ++ " to " ++ name ++ " failed: " ++ cause.message ++
        "; original queue rollback also failed: " ++ rollback.message

/-- `FailurePolicy` is a string in the source; `other` is any string it does not name. -/
inductive FailurePolicy where
  | dlq
  | drop
  | infinite
  | other (text : String)
  deriving DecidableEq, Repr

def FailurePolicy.text : FailurePolicy → String
  | .dlq => "dlq"
  | .drop => "drop"
  | .infinite => "infinite"
  | .other text => text

def FailurePolicy.ofText (text : String) : FailurePolicy :=
  if text = "dlq" then .dlq
  else if text = "drop" then .drop
  else if text = "infinite" then .infinite
  else .other text

def defaultMaxRetries : UInt32 := 5

def dlqSuffix : String := ".dlq"

def dlqName (queue : String) : String := queue ++ dlqSuffix

theorem dlqName_ne (queue : String) : dlqName queue ≠ queue := by
  intro h
  have hlength := congrArg String.length h
  simp [dlqName, dlqSuffix, String.length_append] at hlength

/-- What one delivery pass meets outside the lock: the clock reading it takes,
and at each of its selects, in turn, whether the receiver had just emptied the
channel. Selects past the end of `rx` meet no receiver. -/
structure Pass where
  now : Time
  rx : List Bool
  deriving DecidableEq, Repr

/-- What one sweep over an in-flight map meets: the clock reading, the order in
which the map is visited, and the delivery pass that follows. -/
structure Sweep where
  now : Time
  order : List String
  pass : Pass
  deriving DecidableEq, Repr

/-- A hook is called under the queue's lock; it may change the caller's state
`σ` and may refuse. `Hook.none` is the nil hook. -/
abbrev Hook (σ : Type u) := Message → σ → Option Err × σ

def Hook.none : Hook σ := fun _ s => (.none, s)

/-- What a nack did. `message` is set whenever the message was found. -/
structure NackResult where
  found : Bool
  message : Option Message
  toDLQ : Bool
  dropped : Bool
  deriving DecidableEq

/-- What a nack does with an in-flight message. -/
inductive Verdict where
  | toDLQ
  | drop
  | requeue
  deriving DecidableEq, Repr

/-- The decision `nackWithHooks` takes, in a queue and in a group alike. An
explicit reject goes to the DLQ only under the DLQ policy; past the retry limit
a policy the switch does not name falls through to the requeue. -/
def nackVerdict (policy : FailurePolicy) (maxRetries : UInt32) (requeue : Bool)
    (attempt : UInt32) : Verdict :=
  if !requeue then
    if policy = .dlq then .toDLQ else .drop
  else if policy ≠ .infinite ∧ maxRetries ≤ attempt then
    match policy with
    | .dlq => .toDLQ
    | .drop => .drop
    | _ => .requeue
  else .requeue

theorem requeue_of_nackVerdict {policy : FailurePolicy} {maxRetries attempt : UInt32}
    {requeue : Bool} (h : nackVerdict policy maxRetries requeue attempt = .requeue) :
    requeue = true := by
  cases requeue with
  | true => rfl
  | false =>
    simp only [nackVerdict, Bool.not_false, if_true] at h
    split at h <;> cases h

section Settlement
variable {σ : Type u} {β : Type v}

section Outcomes
variable (inFlight : Option Message) (hook : Hook σ) (pass : Go β) (before : β) (s : σ)

/-- The message is not in flight, the hook refuses and nothing has changed, or the message
has gone and the pass has followed. -/
inductive AckOutcome : β → σ → Bool × Option Err → Prop where
  | missing : inFlight = none → AckOutcome before s (false, none)
  | refused {msg : Message} {err : Err} {s' : σ} : inFlight = some msg →
      hook msg s = (some err, s') → AckOutcome before s' (false, some err)
  | settled {msg : Message} {after : β} {s' : σ} : inFlight = some msg → hook msg s = (none, s') →
      pass = .ok after → AckOutcome after s' (true, none)

variable (verdict : Message → Verdict) (requeueHook : Hook σ) (now : Time) (gone : β)
  (passWith : Message → Go β)

/-- `gone` is left without the message, `passWith` follows a requeue. -/
inductive NackOutcome : β → σ → NackResult × Option Err → Prop where
  | missing : inFlight = none → NackOutcome before s (⟨false, none, false, false⟩, none)
  | toDLQ {msg : Message} : inFlight = some msg → verdict msg = .toDLQ →
      NackOutcome gone s (⟨true, some msg, true, false⟩, none)
  | dropped {msg : Message} {s' : σ} : inFlight = some msg → verdict msg = .drop →
      hook msg s = (none, s') → NackOutcome gone s' (⟨true, some msg, false, true⟩, none)
  | keptFromDrop {msg : Message} {err : Err} {s' : σ} : inFlight = some msg → verdict msg = .drop →
      hook msg s = (some err, s') → NackOutcome before s' (⟨true, some msg, false, true⟩, some err)
  | requeued {msg : Message} {after : β} {s' : σ} : inFlight = some msg → verdict msg = .requeue →
      requeueHook { msg with visibleAt := now } s = (none, s') →
      passWith { msg with visibleAt := now } = .ok after →
      NackOutcome after s' (⟨true, some { msg with visibleAt := now }, false, false⟩, none)
  | keptFromRequeue {msg : Message} {err : Err} {s' : σ} : inFlight = some msg →
      verdict msg = .requeue → requeueHook { msg with visibleAt := now } s = (some err, s') →
      NackOutcome before s' (⟨true, some msg, false, false⟩, some err)

end Outcomes

theorem AckOutcome.state {inFlight : Option Message} {hook : Hook σ} {pass : Go β} {before after : β}
    {s s' : σ} {result : Bool × Option Err}
    (h : AckOutcome inFlight hook pass before s after s' result) :
    s' = inFlight.elim s fun msg => (hook msg s).2 := by
  cases h with
  | missing hnone => rw [hnone, Option.elim_none]
  | refused hfind hhook => rw [hfind, Option.elim_some, hhook]
  | settled hfind hhook _ => rw [hfind, Option.elim_some, hhook]

end Settlement

end QwerQ
