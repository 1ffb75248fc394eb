import QwerQ.Queue
import QwerQ.Stream
import QwerQ.Library.Process

/-! The broker and the steps its handlers are made of. A step is one call to the
storage or one section under a lock; a handler is a program of steps, so that it
can be run alone, cut off by a crash or interleaved with others. Queues are
shared by pointer in the source: a program holds a queue's name, and no handler
removes a queue. -/
namespace QwerQ
open KeyedMap Option

def defaultIdempotencyTTL : Duration := 300 * nanosecondsPerSecond

def maxIdempotencyKeys : Nat := 100000

structure IdempotencyTracker where
  keys : KeyedMap (Prod.fst : String × Time → String)
  ttl : Duration
  deriving DecidableEq

namespace IdempotencyTracker

def new (ttl : Duration) : IdempotencyTracker :=
  ⟨∅, if ttl ≤ 0 then defaultIdempotencyTTL else ttl⟩

def cleanup (now : Time) (t : IdempotencyTracker) : IdempotencyTracker :=
  { t with keys := t.keys.filter fun entry => now ≤ entry.2 }

/-- Refuses a key seen within the TTL and records a new one. -/
def check (key : String) (now : Time) (t : IdempotencyTracker) : Option Err × IdempotencyTracker :=
  if key = "" then (none, t)
  else if (t.keys.find? key).any (fun entry => now < entry.2) then
    (some (.duplicateMessage key), t)
  else
    let t := if maxIdempotencyKeys ≤ t.keys.entries.length then t.cleanup now else t
    (none, { t with keys := t.keys.insert (key, now + t.ttl) })

end IdempotencyTracker

structure Broker where
  queues : KeyedMap Queue.name
  streamQueues : KeyedMap StreamQueue.name
  dedup : Option IdempotencyTracker
  memoryLimit : UInt64
  deriving DecidableEq

def largeMessageThreshold : Nat := 64 * 1024

def Broker.new (memoryLimit : UInt64) : Broker where
  queues := ∅
  streamQueues := ∅
  dedup := some (.new defaultIdempotencyTTL)
  memoryLimit := memoryLimit

/-- `alloc` is the cached reading of the allocated memory. -/
def Broker.checkMemoryPressure (alloc : UInt64) (b : Broker) : Option Err :=
  if b.memoryLimit = 0 then none
  else if b.memoryLimit < alloc then some .memoryPressure
  else none

def Broker.checkMemoryPressureEager (alloc : UInt64) (b : Broker) : Option Err :=
  b.checkMemoryPressure alloc

structure World where
  broker : Broker
  disk : Disk

/-- A new broker over an empty storage, whose calls fail as `faults` says. -/
def World.opened (memoryLimit : UInt64) (faults : Nat → Option String) : World :=
  ⟨Broker.new memoryLimit, ⟨true, Storage.empty, faults⟩⟩

namespace World

def queue? (name : String) (w : World) : Option Queue := w.broker.queues.find? name

def setQueue (q : Queue) (w : World) : World :=
  { w with broker := { w.broker with queues := w.broker.queues.insert q } }

variable {name : String} {w : World} {q : Queue}

@[simp] theorem setQueue_disk (q : Queue) (w : World) : (w.setQueue q).disk = w.disk := rfl

@[simp] theorem queue?_setQueue_self (q : Queue) (w : World) :
    (w.setQueue q).queue? q.name = some q :=
  find?_insert_self _ q

theorem queue?_setQueue_of_ne (w : World) (h : name ≠ q.name) :
    (w.setQueue q).queue? name = w.queue? name :=
  find?_insert_of_ne _ h

theorem isSome_queue?_setQueue
    (h : (w.queue? name).isSome) : ((w.setQueue q).queue? name).isSome := by
  by_cases hname : name = q.name
  · rw [hname, queue?_setQueue_self]
    rfl
  · rwa [queue?_setQueue_of_ne w hname]

def stream? (name : String) (w : World) : Option StreamQueue := w.broker.streamQueues.find? name

def setStream (sq : StreamQueue) (w : World) : World :=
  { w with broker := { w.broker with streamQueues := w.broker.streamQueues.insert sq } }

@[simp] theorem stream?_setStream_self (sq : StreamQueue) (w : World) :
    (w.setStream sq).stream? sq.name = some sq :=
  find?_insert_self _ sq

theorem isSome_stream?_setStream {sq : StreamQueue}
    (h : name = sq.name ∨ (w.stream? name).isSome) : ((w.setStream sq).stream? name).isSome := by
  rw [stream?, setStream, find?_insert]
  split
  · rfl
  · rename_i hname
    exact h.resolve_left hname

def store (change : Storage → Storage) (w : World) : World :=
  { w with disk := { w.disk with storage := change w.disk.storage } }

@[simp] theorem queue?_store (change : Storage → Storage) (w : World) (name : String) :
    (w.store change).queue? name = w.queue? name := rfl

theorem queue?_name (h : w.queue? name = some q) :
    q.name = name :=
  (find?_eq_some_iff.mp h).2

def liveIds (w : World) (name : String) : List String :=
  ((w.queue? name).map fun q => q.live.map Message.id).getD []

/-- The queue of that name, or the one that would be created. -/
def queueAt (name : String) (w : World) : Queue := (w.queue? name).getD (Queue.new name)

theorem queueAt_of_some (h : w.queue? name = some q) :
    w.queueAt name = q := by
  rw [queueAt, h]
  rfl

theorem liveIds_eq (w : World) (name : String) :
    w.liveIds name = (w.queueAt name).live.map Message.id := by
  rw [liveIds, queueAt]
  cases w.queue? name <;> rfl

theorem queue?_put (q' : Queue) (hq : w.queue? name = some q)
    (hname : q'.name = q.name) : (w.setQueue q').queue? name = some q' := by
  rw [← (hname.trans (queue?_name hq) : q'.name = name)]
  exact queue?_setQueue_self q' w

theorem queueAt_setQueue {q' : Queue} (hq : w.queue? name = some q)
    (hname : q'.name = q.name) (other : String) :
    (w.setQueue q').queueAt other = if other = name then q' else w.queueAt other := by
  have hself : q'.name = name := hname.trans (queue?_name hq)
  by_cases hother : other = name
  · rw [if_pos hother, hother, ← hself, queueAt, queue?_setQueue_self]
    rfl
  · rw [if_neg hother, queueAt, queue?_setQueue_of_ne w (hself ▸ hother), queueAt]

theorem queue?_replaced {next left : Queue} (w : World) (hname : next.name = name)
    (hleft : left.name = dlqName name) :
    ((w.setQueue next).setQueue left).queue? name = some next ∧
      ((w.setQueue next).setQueue left).queue? (dlqName name) = some left := by
  have hne : name ≠ left.name := hleft ▸ (dlqName_ne name).symm
  constructor
  · rw [queue?_setQueue_of_ne _ hne, ← hname]
    exact queue?_setQueue_self next w
  · rw [← hleft]
    exact queue?_setQueue_self left _

theorem queue?_setQueue_same (hq : w.queue? name = some q)
    (other : String) : (w.setQueue q).queue? other = w.queue? other := by
  by_cases hother : other = q.name
  · rw [hother, queue?_setQueue_self, queue?_name hq, hq]
  · exact queue?_setQueue_of_ne w hother

theorem queueAt_setQueue_same (hq : w.queue? name = some q)
    (other : String) : (w.setQueue q).queueAt other = w.queueAt other := by
  rw [queueAt, queue?_setQueue_same hq, queueAt]

theorem queueAt_create (hq : w.queue? name = none) (other : String) :
    (w.setQueue (Queue.new name)).queueAt other = w.queueAt other := by
  by_cases hother : other = name
  · have hfound : (w.setQueue (Queue.new name)).queue? other = some (Queue.new name) :=
      hother ▸ queue?_setQueue_self (Queue.new name) w
    rw [queueAt_of_some hfound, queueAt, hother, hq]
    rfl
  · rw [queueAt, queue?_setQueue_of_ne w hother, queueAt]

def HasRecord (queue id : String) (w : World) : Prop :=
  (w.disk.storage.messages.find? (queue, id)).isSome

instance (queue id : String) (w : World) : Decidable (w.HasRecord queue id) :=
  inferInstanceAs (Decidable (_ = true))

theorem hasRecord_saveMessage {queue id : String} {msg : Message} :
    (w.store (Storage.saveMessage msg)).HasRecord queue id ↔
      queue = msg.queue ∧ id = msg.id ∨ w.HasRecord queue id := by
  rw [HasRecord, store, Storage.saveMessage, find?_insert]
  split
  · rename_i hkey
    rw [Prod.mk.injEq] at hkey
    exact iff_of_true rfl (.inl hkey)
  · rename_i hkey
    rw [Prod.mk.injEq] at hkey
    exact (or_iff_right hkey).symm

theorem hasRecord_deleteMessage {queue id other otherId : String} :
    (w.store (Storage.deleteMessage other otherId)).HasRecord queue id ↔
      ¬(queue = other ∧ id = otherId) ∧ w.HasRecord queue id := by
  rw [HasRecord, store, Storage.deleteMessage, find?_erase]
  split
  · rename_i hkey
    rw [Prod.mk.injEq] at hkey
    exact iff_of_false Bool.false_ne_true fun h => h.1 hkey
  · rename_i hkey
    rw [Prod.mk.injEq] at hkey
    exact (and_iff_right hkey).symm

end World

/-- What a step was, as far as the ledgers and the stored messages go. -/
inductive Label where
  | silent
  | create (name : String)
  | save (queue id : String)
  | delete (queue id : String)
  | deleteAll (queue : String)
  | enqueue (queue id : String) (accepted : Bool)
  | clear (queue : String)
  | acked (queue id : String) (ok : Bool)
  | deadLettered (queue id : String)
  deriving DecidableEq, Repr

abbrev Prog := Process Label World Panic

def look (view : World → α) : Prog α :=
  .step (fun _ => .silent) (fun w => w) fun w => .done (view w)

def write (label : Label) (change : Storage → Storage) : Prog (Option Err) :=
  .step (fun _ => label) (fun w => { w with disk := (w.disk.write change).2 })
    fun w => .done (w.disk.write change).1

def readDisk (view : Storage → α) : Prog (Except Err α) :=
  .step (fun _ => .silent) (fun w => { w with disk := (w.disk.read view).2 })
    fun w => .done (w.disk.read view).1

def saveMessage (msg : Message) : Prog (Option Err) :=
  write (.save msg.queue msg.id) (Storage.saveMessage msg)

def deleteMessage (queue id : String) : Prog (Option Err) :=
  write (.delete queue id) (Storage.deleteMessage queue id)

def deleteQueueMessages (queue : String) : Prog (Option Err) :=
  write (.deleteAll queue) (Storage.deleteQueueMessages queue)

/-- A section under a queue's lock. The queue is a pointer, nil where its creation
failed; hooks reach the storage. A section that panics is silent. -/
def locked (q : Option String) (label : Queue → Disk → Label)
    (body : Queue → Disk → Go ((Queue × Disk) × α)) : Prog α :=
  .atomic
    (fun w => match q.bind w.queue? with
      | none => .silent
      | some q => match body q w.disk with
          | .error _ => .silent
          | .ok _ => label q w.disk)
    (fun w => match q.bind w.queue? with
      | none => .error .nilPointer
      | some q => do
          let ((q, disk), result) ← body q w.disk
          return (result, { w.setQueue q with disk := disk }))

def lockedPure (q : Option String) (label : Queue → Label) (body : Queue → Go (Queue × α)) :
    Prog α :=
  locked q (fun q _ => label q) fun q disk => do
    let (q, result) ← body q
    return ((q, disk), result)

def getQueue (name : String) : Prog Bool := look fun w => (w.queue? name).isSome

def newConfig (q : Queue) : QueueConfig where
  maxSize := q.maxSize
  maxSizeSet := false
  maxRetries := q.maxRetries.toNat
  failurePolicy := q.failurePolicy.text
  mode := .unset
  retentionMaxAge := 0
  retentionMaxBytes := 0

def streamConfig : QueueConfig where
  maxSize := 0
  maxSizeSet := false
  maxRetries := 0
  failurePolicy := ""
  mode := .stream
  retentionMaxAge := 0
  retentionMaxBytes := 0

/-- The section of `GetOrCreateQueueWithError` under the broker's write lock: it
looks again, stores the configuration and files the queue. -/
def createQueue (name : String) (w : World) : Option Err × World :=
  match w.queue? name with
  | some _ => (none, w)
  | none =>
      match w.disk.write (Storage.saveQueue name (newConfig (Queue.new name))) with
      | (some err, disk) => (some err, { w with disk := disk })
      | (none, disk) => (none, { w.setQueue (Queue.new name) with disk := disk })

def getOrCreateQueueWithError (name : String) : Prog (Option Err) := do
  if ← getQueue name then return none
  .step (fun _ => .create name) (fun w => (createQueue name w).2)
    fun w => .done (createQueue name w).1

/-- The pointer is nil when the queue could not be created. -/
def getOrCreateQueue (name : String) : Prog (Option String) := do
  match ← getOrCreateQueueWithError name with
  | some _ => return none
  | none => return some name

def creationCalls (name : String) (w : World) : Nat := if (w.queue? name).isSome then 0 else 1

/-- A queue is there, new if there was none, and nothing else has changed but its
configuration. -/
structure Created (name : String) (w w' : World) : Prop where
  queue : w'.queue? name = some ((w.queue? name).getD (Queue.new name))
  others : ∀ other, other ≠ name → w'.queue? other = w.queue? other
  present : w'.disk.present = true
  messages : w'.disk.storage.messages = w.disk.storage.messages
  faults : ∀ n, w'.disk.faults n = w.disk.faults (n + creationCalls name w)

section Creation
variable {w : World} {name : String}

theorem createQueue_created (hpresent : w.disk.present = true)
    (h : (w.queue? name).isSome ∨ w.disk.faults 0 = none) :
    (createQueue name w).1 = none ∧ Created name w (createQueue name w).2 := by
  cases hq : w.queue? name with
  | some q =>
    simp only [createQueue, hq]
    refine ⟨trivial, by rw [hq]; rfl, fun _ _ => rfl, hpresent, rfl, fun n => ?_⟩
    rw [creationCalls, hq]
    rfl
  | none =>
    rw [hq] at h
    have hok : w.disk.faults 0 = none := h.resolve_left Bool.false_ne_true
    simp only [createQueue, hq, Disk.write_succeeded hpresent hok]
    refine ⟨trivial, ?_, fun other hother => World.queue?_setQueue_of_ne w hother, hpresent, rfl,
      fun n => ?_⟩
    · rw [hq]
      exact World.queue?_setQueue_self (Queue.new name) w
    · rw [creationCalls, hq]
      rfl

theorem createQueue_others {other : String} (hother : other ≠ name) :
    (createQueue name w).2.queue? other = w.queue? other := by
  unfold createQueue
  split
  · rfl
  · split
    · rfl
    · exact World.queue?_setQueue_of_ne w hother

theorem createQueue_of_sound (name : String) (hsound : w.disk.Sound) :
    (createQueue name w).1 = none ∧ Created name w (createQueue name w).2 :=
  createQueue_created hsound.present (.inr (by rw [hsound.faults]))

theorem createQueue_sound (hsound : w.disk.Sound) (hq : w.queue? name = none) :
    createQueue name w = (none, (w.setQueue (Queue.new name)).store
      (Storage.saveQueue name (newConfig (Queue.new name)))) := by
  rw [createQueue, hq]
  simp only [hsound.write_eq]
  rfl

theorem Created.sound {w' : World} (h : Created name w w') (hsound : w.disk.Sound) :
    w'.disk.Sound := by
  refine ⟨h.present, ?_⟩
  funext n
  rw [h.faults, hsound.faults]

theorem Created.queueAt {w' : World} (h : Created name w w') (other : String) :
    w'.queueAt other = w.queueAt other := by
  by_cases hother : other = name
  · rw [hother, World.queueAt_of_some h.queue, World.queueAt]
  · rw [World.queueAt, h.others other hother, World.queueAt]

theorem createQueue_quiet (name : String) (hquiet : w.disk.Quiet) :
    (createQueue name w).1 = none ∧ (createQueue name w).2.queue? name = some (w.queueAt name) := by
  cases hq : w.queue? name with
  | some q => simp [createQueue, hq, World.queueAt]
  | none =>
    simp only [createQueue, hq, hquiet.write_eq, World.queueAt]
    exact ⟨trivial, World.queue?_setQueue_self (Queue.new name) w⟩

theorem createQueue_failed {text : String} (hpresent : w.disk.present = true)
    (hq : w.queue? name = none) (hfault : w.disk.faults 0 = some text) :
    createQueue name w = (some (.storage text), { w with disk := w.disk.called w.disk.storage }) := by
  simp only [createQueue, hq, Disk.write_failed hpresent hfault]

theorem createQueue_fails (hq : w.queue? name = none) (h : w.disk.fails 0) :
    ∃ err, createQueue name w = (some err, { w with disk := w.disk.called w.disk.storage }) := by
  have ⟨err, hwrite⟩ := Disk.write_of_fails (Storage.saveQueue name (newConfig (Queue.new name))) h
  exact ⟨err, by simp only [createQueue, hq, hwrite]⟩

/-- `GetOrCreateQueue` returns a queue: it is there, or `SaveQueue` does not fail. -/
def World.Gets (name : String) (w : World) : Prop := (w.queue? name).isSome ∨ ¬ w.disk.fails 0

instance (name : String) (w : World) : Decidable (w.Gets name) := inferInstanceAs (Decidable (_ ∨ _))

/-- The queue that it returns, nil if it has to be created and cannot be stored. -/
def World.got (name : String) (w : World) : Option Queue :=
  if w.Gets name then some (w.queueAt name) else none

/-- What `GetOrCreateQueue` leaves, also where it returns nil. -/
structure Opened (name : String) (w w' : World) : Prop where
  found : w'.queue? name = w.got name
  others : ∀ other, other ≠ name → w'.queue? other = w.queue? other
  broker : w'.broker = { w.broker with queues := w'.broker.queues }
  present : w'.disk.present = w.disk.present
  messages : w'.disk.storage.messages = w.disk.storage.messages
  fails : ∀ n, w'.disk.fails n ↔ w.disk.fails (n + creationCalls name w)

theorem createQueue_opened (name : String) (w : World) :
    (if (createQueue name w).1.isSome then none else some name) =
        ((createQueue name w).2.queue? name).map (fun _ => name) ∧
      Opened name w (createQueue name w).2 := by
  cases hq : w.queue? name with
  | some q =>
    have hcreate : createQueue name w = (none, w) := by rw [createQueue, hq]
    rw [hcreate, hq]
    refine ⟨rfl, ?_, fun _ _ => rfl, rfl, rfl, rfl, ?_⟩
    · rw [World.got, if_pos (.inl (by rw [hq]; rfl)), hq, World.queueAt_of_some hq]
    · simp [creationCalls, hq]
  | none =>
    by_cases hfails : w.disk.fails 0
    · have ⟨err, hcreate⟩ := createQueue_fails hq hfails
      have hsame : World.queue? name { w with disk := w.disk.called w.disk.storage } = none := hq
      rw [hcreate, hsame]
      refine ⟨rfl, ?_, fun _ _ => rfl, rfl, rfl, rfl, ?_⟩
      · rw [World.got, if_neg (by simp [World.Gets, hq, hfails])]
        exact hq
      · simp only [creationCalls, hq]
        exact fun _ => Iff.rfl
    · have hnew : (w.setQueue (Queue.new name)).queue? name = some (Queue.new name) :=
        World.queue?_setQueue_self (Queue.new name) w
      simp only [createQueue, hq, Disk.write_of_not_fails _ hfails]
      refine ⟨congrArg (Option.map fun _ => name) hnew.symm, ?_,
        fun other hother => World.queue?_setQueue_of_ne w hother, rfl, Disk.wrote_present _, ?_, ?_⟩
      · rw [World.got, if_pos (.inr hfails), World.queueAt, hq]
        exact hnew
      · unfold Disk.wrote
        split <;> rfl
      · intro n
        rw [Disk.wrote_fails, creationCalls, hq]
        rfl

theorem createQueue_found (h : w.Gets name) :
    (createQueue name w).2.queue? name = some (w.queueAt name) :=
  (createQueue_opened name w).2.found.trans (if_pos h)

theorem World.gets_iff (hpresent : w.disk.present = true) :
    w.Gets name ↔ (w.queue? name).isSome ∨ w.disk.faults 0 = none := by
  simp [World.Gets, Disk.fails, hpresent]

theorem Opened.queueAt {w' : World} (h : Opened name w w') (other : String) :
    w'.queueAt other = w.queueAt other := by
  by_cases hother : other = name
  · rw [hother, World.queueAt, h.found, World.got]
    split
    · rfl
    · rename_i hmissing
      rw [World.queueAt, Option.not_isSome_iff_eq_none.mp (not_or.mp hmissing).1]
  · rw [World.queueAt, h.others other hother, World.queueAt]

end Creation

variable {change : Storage → Storage} {ptr : Option String} {view : World → α} {note : Label}
  {label : Queue → Disk → Label} {body : Queue → Disk → Go ((Queue × Disk) × α)}
  {title : Queue → Label} {work : Queue → Go (Queue × α)} {post : α → World → Prop}
  {told : Option Err → World → Prop} {given : Option String → World → Prop} {missing rest : Prog α}

section Returns
open Process
variable {w : World} {name : String} {q : Queue}

@[simp] theorem returns_look : (look view).Returns w post ↔ post (view w) w := Iff.rfl

@[simp] theorem returns_getQueue {post : Bool → World → Prop} :
    (getQueue name).Returns w post ↔ post (w.queue? name).isSome w := Iff.rfl

theorem returns_found (hq : w.queue? name = some q) :
    (getQueue name >>= fun found => if !found then missing else rest).Returns w post ↔
      rest.Returns w post := by
  simp [hq]

theorem returns_lookup (hmissing : w.queue? name = none → missing.Returns w post)
    (hfound : ∀ q, w.queue? name = some q → rest.Returns w post) :
    (getQueue name >>= fun found => if !found then missing else rest).Returns w post := by
  cases hq : w.queue? name with
  | none => simpa [hq] using hmissing hq
  | some q => exact (returns_found hq).mpr (hfound q hq)

theorem returns_write : (write note change).Returns w told ↔
      told (w.disk.write change).1 { w with disk := (w.disk.write change).2 } := Iff.rfl

theorem returns_write_sound (h : w.disk.Sound) :
    (write note change).Returns w told ↔ told none (w.store change) := by
  rw [returns_write, h.write_eq]
  rfl

theorem returns_locked (hq : w.queue? name = some q) :
    (locked (some name) label body).Returns w post ↔
      ∃ q' disk result, body q w.disk = .ok ((q', disk), result) ∧
        post result { w.setQueue q' with disk := disk } := by
  simp only [locked, returns_atomic, bind_some, hq, Go.bind_eq_ok, Go.pure_eq]
  constructor
  · rintro ⟨result, w', ⟨⟨⟨q', disk⟩, value⟩, hbody, hret⟩, hpost⟩
    cases hret
    exact ⟨q', disk, value, hbody, hpost⟩
  · rintro ⟨q', disk, result, hbody, hpost⟩
    exact ⟨result, _, ⟨((q', disk), result), hbody, rfl⟩, hpost⟩

theorem not_returns_locked {q : Option String}
    (hq : q.bind w.queue? = none) : ¬(locked q label body).Returns w post := by
  simp [locked, returns_atomic, hq]

theorem returns_lockedPure (hq : w.queue? name = some q) :
    (lockedPure (some name) title work).Returns w post ↔
      ∃ q' result, work q = .ok (q', result) ∧ post result (w.setQueue q') := by
  rw [lockedPure, returns_locked hq]
  simp only [Go.bind_eq_ok, Go.pure_eq]
  constructor
  · rintro ⟨q', disk, result, ⟨⟨next, value⟩, hbody, hret⟩, hpost⟩
    cases hret
    exact ⟨next, value, hbody, hpost⟩
  · rintro ⟨q', result, hbody, hpost⟩
    exact ⟨q', w.disk, result, ⟨(q', result), hbody, rfl⟩, hpost⟩

theorem returns_getOrCreateQueueWithError : (getOrCreateQueueWithError name).Returns w told ↔
      told (createQueue name w).1 (createQueue name w).2 := by
  simp only [getOrCreateQueueWithError, returns_bind, returns_getQueue]
  cases hq : w.queue? name with
  | none => rfl
  | some q => simp [createQueue, hq]

theorem returns_getOrCreateQueue : (getOrCreateQueue name).Returns w given ↔
      given (if (createQueue name w).1.isSome then none else some name) (createQueue name w).2 := by
  simp only [getOrCreateQueue, returns_bind, returns_getOrCreateQueueWithError]
  cases (createQueue name w).1 <;> rfl

/-- What follows `GetOrCreateQueue` where nothing returns from a nil pointer. -/
theorem returns_getOrCreateQueue_bind {next : Option String → Prog α}
    (hnil : ∀ w', ¬(next none).Returns w' post) :
    (getOrCreateQueue name >>= next).Returns w post ↔
      w.Gets name ∧ (next (some name)).Returns (createQueue name w).2 post := by
  have ⟨hptr, hopened⟩ := createQueue_opened name w
  rw [returns_bind, returns_getOrCreateQueue, hptr, hopened.found, World.got]
  by_cases hgets : w.Gets name
  · rw [if_pos hgets]
    exact (and_iff_right hgets).symm
  · rw [if_neg hgets]
    exact iff_of_false (hnil _) fun h => hgets h.1

end Returns

section Ensures
open Process
variable {w : World} {name : String} {q : Queue}

@[simp] theorem ensures_look : (look view).Ensures w post ↔ post (view w) w := Iff.rfl

@[simp] theorem ensures_getQueue {post : Bool → World → Prop} :
    (getQueue name).Ensures w post ↔ post (w.queue? name).isSome w := Iff.rfl

theorem ensures_found (hq : w.queue? name = some q) :
    (getQueue name >>= fun found => if !found then missing else rest).Ensures w post ↔
      rest.Ensures w post := by
  simp [hq]

theorem ensures_lookup (hmissing : w.queue? name = none → missing.Ensures w post)
    (hfound : ∀ q, w.queue? name = some q → rest.Ensures w post) :
    (getQueue name >>= fun found => if !found then missing else rest).Ensures w post := by
  cases hq : w.queue? name with
  | none => simpa [hq] using hmissing hq
  | some q => exact (ensures_found hq).mpr (hfound q hq)

theorem ensures_write : (write note change).Ensures w told ↔
      told (w.disk.write change).1 { w with disk := (w.disk.write change).2 } := Iff.rfl

theorem ensures_write_sound (h : w.disk.Sound) :
    (write note change).Ensures w told ↔ told none (w.store change) := by
  rw [ensures_write, h.write_eq]
  rfl

theorem ensures_readDisk {view : Storage → α} {post : Except Err α → World → Prop} :
    (readDisk view).Ensures w post ↔
      post (w.disk.read view).1 { w with disk := (w.disk.read view).2 } := Iff.rfl

theorem ensures_locked : (locked ptr label body).Ensures w post ↔
      ∀ name q q' disk result, ptr = some name → w.queue? name = some q →
        body q w.disk = .ok ((q', disk), result) →
        post result { w.setQueue q' with disk := disk } := by
  simp only [locked, ensures_atomic]
  cases hptr : ptr.bind w.queue? with
  | none =>
    simp only [reduceCtorEq, false_imp_iff, implies_true, true_iff]
    intro name q q' disk result hname hq
    rw [hname, bind_some, hq] at hptr
    cases hptr
  | some q =>
    have ⟨name, hname, hq⟩ := bind_eq_some_iff.mp hptr
    simp only [Go.bind_eq_ok, Go.pure_eq]
    constructor
    · intro h other q0 q' disk result hother hq0 hbody
      cases hname.symm.trans hother
      cases hq.symm.trans hq0
      exact h result _ ⟨((q', disk), result), hbody, rfl⟩
    · rintro h result w' ⟨⟨⟨q', disk⟩, value⟩, hbody, hret⟩
      cases hret
      exact h name q q' disk value hname hq hbody

theorem ensures_lockedPure : (lockedPure ptr title work).Ensures w post ↔
      ∀ name q q' result, ptr = some name → w.queue? name = some q →
        work q = .ok (q', result) → post result (w.setQueue q') := by
  simp only [lockedPure, ensures_locked, Go.bind_eq_ok, Go.pure_eq]
  constructor
  · intro h name q q' result hname hq hbody
    exact h name q q' w.disk result hname hq ⟨(q', result), hbody, rfl⟩
  · rintro h name q q' disk result hname hq ⟨⟨next, value⟩, hbody, hret⟩
    cases hret
    exact h name q next value hname hq hbody

theorem ensures_locked_of (hq : w.queue? name = some q)
    (h : ∀ q' disk result, body q w.disk = .ok ((q', disk), result) →
      post result { w.setQueue q' with disk := disk }) :
    (locked (some name) label body).Ensures w post := by
  refine ensures_locked.mpr fun other found q' disk result hname hfound hbody => ?_
  cases hname
  cases hq.symm.trans hfound
  exact h q' disk result hbody

theorem ensures_lockedPure_of (hq : w.queue? name = some q)
    (h : ∀ q' result, work q = .ok (q', result) → post result (w.setQueue q')) :
    (lockedPure (some name) title work).Ensures w post := by
  refine ensures_lockedPure.mpr fun other found q' result hname hfound hbody => ?_
  cases hname
  cases hq.symm.trans hfound
  exact h q' result hbody

theorem ensures_getOrCreateQueueWithError : (getOrCreateQueueWithError name).Ensures w told ↔
      told (createQueue name w).1 (createQueue name w).2 := by
  simp only [getOrCreateQueueWithError, ensures_bind, ensures_getQueue]
  cases hq : w.queue? name with
  | none => rfl
  | some q => simp [createQueue, hq]

theorem ensures_getOrCreateQueue : (getOrCreateQueue name).Ensures w given ↔
      given (if (createQueue name w).1.isSome then none else some name) (createQueue name w).2 := by
  simp only [getOrCreateQueue, ensures_bind, ensures_getOrCreateQueueWithError]
  cases (createQueue name w).1 <;> rfl

end Ensures

section Survives
open Process
variable {w : World} {name : String} {q : Queue} {crash : World → Prop}

end Survives

section Every
open Process
variable {rel : World → Label → World → Prop} (hsilent : ∀ w, rel w .silent w)
include hsilent

theorem every_look (view : World → α) : (look view).Every rel := fun w => ⟨hsilent w, trivial⟩

theorem every_locked (ptr : Option String)
    (hbody : ∀ w name q q' disk result, ptr = some name → w.queue? name = some q →
      body q w.disk = .ok ((q', disk), result) →
      rel w (label q w.disk) { w.setQueue q' with disk := disk }) :
    (locked ptr label body).Every rel := by
  refine every_atomic (fun w result w' h => ?_) fun w failure h => ?_
  · cases hptr : ptr.bind w.queue? with
    | none => simp [hptr] at h
    | some q =>
      obtain ⟨name, hname, hq⟩ := bind_eq_some_iff.mp hptr
      simp only [hptr, Go.bind_eq_ok, Go.pure_eq] at h
      obtain ⟨⟨⟨q', disk⟩, value⟩, hok, hret⟩ := h
      cases hret
      simpa only [hptr, hok] using hbody w name q q' disk value hname hq hok
  · cases hptr : ptr.bind w.queue? with
    | none => simpa only [hptr] using hsilent w
    | some q =>
      cases hok : body q w.disk with
      | error panic => simpa only [hptr, hok] using hsilent w
      | ok pair =>
        simp only [hptr, hok] at h
        cases h

theorem every_lockedPure (ptr : Option String)
    (hbody : ∀ w name q q' result, ptr = some name → w.queue? name = some q →
      work q = .ok (q', result) → rel w (title q) (w.setQueue q')) :
    (lockedPure ptr title work).Every rel := by
  refine every_locked hsilent ptr fun w name q q' disk result hptr hq hok => ?_
  rw [Go.bind_eq_ok] at hok
  have ⟨pair, hpair, hret⟩ := hok
  cases hret
  exact hbody w name q pair.1 pair.2 hptr hq hpair

variable {name : String}

theorem every_getOrCreateQueueWithError
    (hcreate : ∀ w, rel w (.create name) (createQueue name w).2) :
    (getOrCreateQueueWithError name).Every rel := by
  refine Every.bind (every_look hsilent _) fun found => ?_
  cases found with
  | true => trivial
  | false => exact fun w => ⟨hcreate w, trivial⟩

omit hsilent in
theorem every_write (h : ∀ w, rel w note { w with disk := (w.disk.write change).2 }) :
    (write note change).Every rel := fun w => ⟨h w, trivial⟩

end Every

/-- The section of `GetOrCreateStreamQueueWithError` under the broker's write lock. -/
def createStreamQueue (name : String) (w : World) : Option Err × World :=
  match w.stream? name with
  | some _ => (none, w)
  | none =>
      let (seq, disk) :=
        if w.disk.present then w.disk.read (Storage.getStreamSequence name) else (.ok 0, w.disk)
      match disk.write (Storage.saveQueue name streamConfig) with
      | (some err, disk) => (some err, { w with disk := disk })
      | (none, disk) => (none, { w.setStream (StreamQueue.new name seq) with disk := disk })

variable {name : String}

theorem createStreamQueue_cases (hpresent : w.disk.present = true)
    (hnew : w.stream? name = none) :
    (∃ err disk, createStreamQueue name w = (some err, { w with disk := disk }) ∧
      disk.present = true ∧ disk.storage = w.disk.storage) ∨
    ∃ seq disk, createStreamQueue name w =
        (none, { w.setStream (StreamQueue.new name seq) with disk := disk }) ∧
      disk.present = true ∧ disk.storage = w.disk.storage.saveQueue name streamConfig := by
  simp only [createStreamQueue, hnew, if_pos hpresent, Disk.read_disk, Disk.write]
  rw [if_pos (show (w.disk.called w.disk.storage).present = true from hpresent)]
  cases (w.disk.called w.disk.storage).faults 0 with
  | some text => exact .inl ⟨_, _, rfl, hpresent, rfl⟩
  | none => exact .inr ⟨_, _, rfl, hpresent, rfl⟩

theorem createStreamQueue_quiet (hquiet : w.disk.Quiet)
    (hnew : w.stream? name = none) :
    createStreamQueue name w =
      (none, { w.setStream (StreamQueue.new name
          (.ok (if w.disk.present then w.disk.storage.getStreamSequence name else 0))) with
        disk := w.disk.stores (Storage.saveQueue name streamConfig) }) := by
  have hread : (if w.disk.present then w.disk.read (Storage.getStreamSequence name)
      else (.ok 0, w.disk) : Except Err UInt64 × Disk) =
      (.ok (if w.disk.present then w.disk.storage.getStreamSequence name else 0), w.disk) := by
    split
    · exact hquiet.read_eq _
    · rfl
  simp only [createStreamQueue, hnew, hread, hquiet.write_eq]

def getOrCreateStreamQueueWithError (name : String) : Prog (Option Err) := do
  if ← look fun w => (w.stream? name).isSome then return none
  .step (fun _ => .create name) (fun w => (createStreamQueue name w).2)
    fun w => .done (createStreamQueue name w).1

/-- The pointer is nil when the stream could not be created. -/
def getOrCreateStreamQueue (name : String) : Prog (Option String) := do
  match ← getOrCreateStreamQueueWithError name with
  | some _ => return none
  | none => return some name

def isStreamQueue (name : String) : Prog Bool := look fun w => (w.stream? name).isSome

def lockedStream (sq : Option String)
    (body : StreamQueue → Disk → (StreamQueue × Disk) × α) : Prog α :=
  .atomic (fun _ => .silent) fun w =>
    match sq.bind w.stream? with
    | none => .error .nilPointer
    | some sq =>
        let ((sq, disk), result) := body sq w.disk
        .ok (result, { w.setStream sq with disk := disk })

section Returns
open Process
variable {w : World}

theorem returns_getOrCreateStreamQueueWithError :
    (getOrCreateStreamQueueWithError name).Returns w told ↔
      told (createStreamQueue name w).1 (createStreamQueue name w).2 := by
  simp only [getOrCreateStreamQueueWithError, returns_bind, returns_look]
  cases hsq : w.stream? name with
  | none => rfl
  | some sq => simp [createStreamQueue, hsq]

theorem returns_getOrCreateStreamQueue : (getOrCreateStreamQueue name).Returns w given ↔
      given (if (createStreamQueue name w).1.isSome then none else some name)
        (createStreamQueue name w).2 := by
  simp only [getOrCreateStreamQueue, returns_bind, returns_getOrCreateStreamQueueWithError]
  cases (createStreamQueue name w).1 <;> rfl

theorem returns_lockedStream {sq : StreamQueue}
    {body : StreamQueue → Disk → (StreamQueue × Disk) × α}
    (hsq : w.stream? name = some sq) :
    (lockedStream (some name) body).Returns w post ↔
      post (body sq w.disk).2 { w.setStream (body sq w.disk).1.1 with disk := (body sq w.disk).1.2 } := by
  simp only [lockedStream, returns_atomic, bind_some, hsq]
  exact ⟨fun ⟨_, _, heq, hpost⟩ => by cases heq; exact hpost, fun hpost => ⟨_, _, rfl, hpost⟩⟩

theorem ensures_getOrCreateStreamQueueWithError :
    (getOrCreateStreamQueueWithError name).Ensures w told ↔
      told (createStreamQueue name w).1 (createStreamQueue name w).2 := by
  simp only [getOrCreateStreamQueueWithError, ensures_bind, ensures_look]
  cases hsq : w.stream? name with
  | none => rfl
  | some sq => simp [createStreamQueue, hsq]

theorem ensures_getOrCreateStreamQueue : (getOrCreateStreamQueue name).Ensures w given ↔
      given (if (createStreamQueue name w).1.isSome then none else some name)
        (createStreamQueue name w).2 := by
  simp only [getOrCreateStreamQueue, ensures_bind, ensures_getOrCreateStreamQueueWithError]
  cases (createStreamQueue name w).1 <;> rfl

theorem ensures_lockedStream {body : StreamQueue → Disk → (StreamQueue × Disk) × α} :
    (lockedStream ptr body).Ensures w post ↔
      ∀ name sq, ptr = some name → w.stream? name = some sq →
        post (body sq w.disk).2
          { w.setStream (body sq w.disk).1.1 with disk := (body sq w.disk).1.2 } := by
  simp only [lockedStream, ensures_atomic]
  cases hptr : ptr.bind w.stream? with
  | none =>
    simp only [reduceCtorEq, false_imp_iff, implies_true, true_iff]
    intro name sq hname hsq
    rw [hname, bind_some, hsq] at hptr
    cases hptr
  | some sq =>
    have ⟨name, hname, hsq⟩ := bind_eq_some_iff.mp hptr
    constructor
    · intro h other sq0 hother hsq0
      cases hname.symm.trans hother
      cases hsq.symm.trans hsq0
      exact h _ _ rfl
    · intro h result w' heq
      cases heq
      exact h name sq hname hsq

end Returns

/-- The stored age is in seconds; the product is one of 64 bits. -/
def retentionAge (config : QueueConfig) : Duration :=
  (Int64.ofInt (config.retentionMaxAge * nanosecondsPerSecond)).toInt

/-- `GetOrCreateStreamQueue`, then `SetRetention` on the pointer it returned. -/
def loadStream (name : String) (config : QueueConfig) : Prog Unit := do
  let sq ← getOrCreateStreamQueue name
  if 0 < config.retentionMaxAge ∨ 0 < config.retentionMaxBytes then
    lockedStream sq fun sq disk =>
      ((sq.setRetention (retentionAge config) config.retentionMaxBytes, disk), ())

def setIf (given : Prop) [Decidable given] (q : Option String) (setter : Queue → Queue) :
    Prog Unit :=
  if given then lockedPure q (fun _ => .silent) fun q => .ok (setter q, ()) else return ()

def configure (config : QueueConfig) (q : Option String) : Prog Unit := do
  setIf (config.maxSizeSet ∨ config.maxSize ≠ 0) q (Queue.setMaxSize config.maxSize)
  setIf (config.maxRetries ≠ 0) q (Queue.setMaxRetries (UInt32.ofInt config.maxRetries))
  setIf (config.failurePolicy ≠ "") q (Queue.setFailurePolicy (.ofText config.failurePolicy))

def recovered (msg : Message) : Message := { msg with sequence := 0 }

def enqueueAll (q : Option String) (env : Message → Env) : List Message → Prog Unit
  | [] => return
  | msg :: rest => do
      lockedPure q (fun q => .enqueue q.name msg.id true) fun q => do
        let q ← q.enqueueDirect (recovered msg) (env msg)
        return (q, ())
      enqueueAll q env rest

def readMessages (name : String) : Prog (Except Err (List Message)) :=
  readDisk (Storage.loadMessages name)

def loadQueue (env : Message → Env) (entry : String × QueueConfig) : Prog (Option Err) := do
  let (name, config) := entry
  if config.mode = .stream then
    loadStream name config
    return none
  match ← readMessages name with
  | .error err => return some err
  | .ok storedMsgs =>
      let q ← getOrCreateQueue name
      configure config q
      enqueueAll q env storedMsgs
      return none

def loadQueues (env : Message → Env) : List (String × QueueConfig) → Prog (Option Err)
  | [] => return none
  | entry :: rest => do
      match ← loadQueue env entry with
      | some err => return some err
      | none => loadQueues env rest

def readQueues (order : List String) : Prog (Except Err (List (String × QueueConfig))) :=
  readDisk fun s => s.queues.inOrder order

/-- `order` is the order in which the map of configurations is visited. -/
def loadFromStorage (order : List String) (env : Message → Env) : Prog (Option Err) := do
  if !(← look fun w => w.disk.present) then return none
  match ← readQueues order with
  | .error err => return some err
  | .ok queues => loadQueues env queues

end QwerQ
