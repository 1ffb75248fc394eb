import QwerQ.Message
import Mathlib.Data.List.Sort

/-! The storage as the broker sees it: a finite map from queue and id to a
message and one from queue name to a configuration. Any call may fail; a failed
call leaves the storage as it was. -/
namespace QwerQ
open List KeyedMap

inductive QueueMode where
  | unset
  | queue
  | stream
  deriving DecidableEq, Repr

structure QueueConfig where
  maxSize : Int
  maxSizeSet : Bool
  maxRetries : Int
  failurePolicy : String
  mode : QueueMode
  retentionMaxAge : Int
  retentionMaxBytes : Int
  deriving DecidableEq

structure StreamRecord where
  queue : String
  seq : UInt64
  msg : Message
  deriving DecidableEq

structure ConsumerOffset where
  queue : String
  group : String
  offset : UInt64
  deriving DecidableEq

structure Storage where
  messages : KeyedMap fun msg : Message => (msg.queue, msg.id)
  queues : KeyedMap (Prod.fst : String × QueueConfig → String)
  streams : KeyedMap fun record : StreamRecord => (record.queue, record.seq)
  offsets : KeyedMap fun entry : ConsumerOffset => (entry.queue, entry.group)
  deriving DecidableEq

namespace Storage

def empty : Storage := ⟨∅, ∅, ∅, ∅⟩

def saveMessage (msg : Message) (s : Storage) : Storage :=
  { s with messages := s.messages.insert msg }

def deleteMessage (queue id : String) (s : Storage) : Storage :=
  { s with messages := s.messages.erase (queue, id) }

def deleteQueueMessages (queue : String) (s : Storage) : Storage :=
  { s with messages := s.messages.filter fun msg => msg.queue ≠ queue }

def stored (queue : String) (s : Storage) : List Message :=
  s.messages.entries.filter fun msg => msg.queue = queue

/-- Iterates over the keys in order, which is the order of the ids. -/
def loadMessages (queue : String) (s : Storage) : List Message :=
  (s.stored queue).insertionSort fun left right => left.id ≤ right.id

variable {s : Storage} {msg : Message} {queue text : String}

theorem mem_loadMessages :
    msg ∈ s.loadMessages queue ↔ msg ∈ s.messages.entries ∧ msg.queue = queue := by
  rw [loadMessages, (perm_insertionSort _ _).mem_iff, stored, mem_filter,
    decide_eq_true_eq]

theorem stored_ids_nodup (queue : String) (s : Storage) :
    ((s.stored queue).map Message.id).Nodup := by
  refine List.Nodup.of_map (fun id => (queue, id)) ?_
  rw [map_map]
  have hkeys := s.messages.nodup.sublist
    ((filter_sublist (p := fun msg => decide (msg.queue = queue))).map _)
  refine (map_congr_left ?_) ▸ hkeys
  intro msg hmsg
  simpa using (mem_filter.mp hmsg).2

theorem loadMessages_ids_nodup (queue : String) (s : Storage) :
    ((s.loadMessages queue).map Message.id).Nodup :=
  ((perm_insertionSort _ _).map Message.id).nodup_iff.mpr (s.stored_ids_nodup queue)

theorem mem_loadMessages_iff_find? :
    msg ∈ s.loadMessages queue ↔ s.messages.find? (queue, msg.id) = some msg := by
  rw [mem_loadMessages, find?_eq_some_iff, Prod.mk.injEq, and_iff_left rfl]

theorem loadMessages_increasing (queue : String) (s : Storage) :
    (s.loadMessages queue).Pairwise fun left right => left.id < right.id := by
  have hsorted : (s.loadMessages queue).Pairwise fun left right => left.id ≤ right.id :=
    pairwise_insertionSort (fun left right : Message => left.id ≤ right.id) _
  have hdistinct : (s.loadMessages queue).Pairwise fun left right => left.id ≠ right.id :=
    pairwise_map.mp (s.loadMessages_ids_nodup queue)
  exact (hsorted.and hdistinct).imp fun ⟨hle, hne⟩ => Std.lt_of_le_of_ne hle hne

def saveQueue (name : String) (config : QueueConfig) (s : Storage) : Storage :=
  { s with queues := s.queues.insert (name, config) }

def saveStreamMessage (queue : String) (seq : UInt64) (msg : Message) (s : Storage) : Storage :=
  { s with streams := s.streams.insert ⟨queue, seq, msg⟩ }

def getStreamSequence (queue : String) (s : Storage) : UInt64 :=
  (s.streams.entries.filter fun record => record.queue = queue).foldl
    (fun seq record => max seq record.seq) 0

def streamRecords (queue : String) (s : Storage) : List StreamRecord :=
  (s.streams.entries.filter fun record => record.queue = queue).insertionSort
    fun left right => left.seq ≤ right.seq

/-- The first message published at that time or later, zero if there is none. -/
def getStreamMessageByTimestamp (queue : String) (timestampMs : Int) (s : Storage) : UInt64 :=
  (((s.streamRecords queue).find? fun record =>
    timestampMs ≤ unixMilli record.msg.publishedAt).map StreamRecord.seq).getD 0

def loadStreamMessages (queue : String) (fromSeq : UInt64) (limit : Nat) (s : Storage) :
    List StreamRecord :=
  ((s.streamRecords queue).filter fun record => fromSeq ≤ record.seq).take limit

/-- The first of the two reads of `GetStreamStats`; the other is `GetStreamSequence`. -/
def getOldestStreamSequence (queue : String) (s : Storage) : UInt64 :=
  ((s.streamRecords queue).head?.map StreamRecord.seq).getD 0

def deleteStreamMessagesBefore (queue : String) (seq : UInt64) (s : Storage) : Storage :=
  { s with streams := s.streams.filter fun record => ¬(record.queue = queue ∧ record.seq < seq) }

def loadConsumerOffset (queue group : String) (s : Storage) : UInt64 :=
  ((s.offsets.find? (queue, group)).map ConsumerOffset.offset).getD 0

section Table
variable {id : String} {body : Body}

def table (s : Storage) (key : String × String) : Option Body :=
  (s.messages.find? key).map Message.body

theorem table_saveMessage (msg : Message) (s : Storage) :
    (s.saveMessage msg).table = Function.update s.table (msg.queue, msg.id) (some msg.body) := by
  funext key
  rw [Function.update_apply, table, saveMessage, find?_insert]
  split <;> rfl

theorem table_deleteMessage (queue id : String) (s : Storage) :
    (s.deleteMessage queue id).table = Function.update s.table (queue, id) none := by
  funext key
  rw [Function.update_apply, table, deleteMessage, find?_erase]
  split <;> rfl

theorem table_deleteQueueMessages (queue : String) (s : Storage) :
    (s.deleteQueueMessages queue).table = fun key => if key.1 = queue then none else s.table key := by
  funext key
  rw [table, deleteQueueMessages, KeyedMap.find?_filter, table]
  cases hfind : s.messages.find? key with
  | none => simp
  | some msg =>
    have hkey := (find?_eq_some_iff.mp hfind).2
    by_cases hqueue : msg.queue = queue
    · simp [← hkey, hqueue, Option.filter]
    · simp [← hkey, hqueue, Option.filter]

theorem table_key (h : s.table (queue, id) = some body) : body.queue = queue ∧ body.id = id := by
  have ⟨msg, hfind, hbody⟩ := Option.map_eq_some_iff.mp h
  have hkey := (find?_eq_some_iff.mp hfind).2
  rw [← hbody]
  exact ⟨congrArg Prod.fst hkey, congrArg Prod.snd hkey⟩

end Table

end Storage

/-- The broker's side of the storage: `present` is `b.storage != nil`, and
`faults` says of each call to come, in turn, whether it fails and with what
text. -/
structure Disk where
  present : Bool
  storage : Storage
  faults : Nat → Option String

namespace Disk

def called (storage : Storage) (d : Disk) : Disk :=
  { d with storage := storage, faults := fun n => d.faults (n + 1) }

/-- A call that changes the storage, made only if there is one. -/
def write (change : Storage → Storage) (d : Disk) : Option Err × Disk :=
  if d.present then
    match d.faults 0 with
    | some text => (some (.storage text), d.called d.storage)
    | none => (none, d.called (change d.storage))
  else (none, d)

def read (view : Storage → α) (d : Disk) : Except Err α × Disk :=
  match d.faults 0 with
  | some text => (.error (.storage text), d.called d.storage)
  | none => (.ok (view d.storage), d.called d.storage)

theorem read_disk (view : Storage → α) (d : Disk) : (d.read view).2 = d.called d.storage := by
  unfold read
  split <;> rfl

theorem read_ok {view : Storage → α} {d : Disk} {value : α} (h : (d.read view).1 = .ok value) :
    value = view d.storage := by
  unfold read at h
  split at h
  · cases h
  · exact (Except.ok.inj h).symm

variable {text : String}

theorem read_failed {view : Storage → α} {d : Disk} (h : d.faults 0 = some text) :
    d.read view = (.error (.storage text), d.called d.storage) := by
  rw [read, h]

theorem read_succeeded {view : Storage → α} {d : Disk} (h : d.faults 0 = none) :
    d.read view = (.ok (view d.storage), d.called d.storage) := by
  rw [read, h]

theorem write_disk_present (change : Storage → Storage) (d : Disk) :
    (d.write change).2.present = d.present := by
  unfold write
  split
  · split <;> rfl
  · rfl

section Write
variable {d : Disk} {change : Storage → Storage} (h : d.present = true)
include h

theorem write_failed (hfault : d.faults 0 = some text) :
    d.write change = (some (.storage text), d.called d.storage) := by
  rw [write, if_pos h, hfault]

theorem write_succeeded (hfault : d.faults 0 = none) :
    d.write change = (none, d.called (change d.storage)) := by
  rw [write, if_pos h, hfault]

theorem write_present : (d.write change).2.present = true := by
  rw [write_disk_present, h]

theorem write_faults (n : Nat) : (d.write change).2.faults n = d.faults (n + 1) := by
  rw [write, if_pos h]
  split <;> rfl

theorem write_storage :
    (d.write change).2.storage = if d.faults 0 = none then change d.storage else d.storage := by
  rw [write, if_pos h]
  cases d.faults 0 <;> rfl

end Write

theorem write_keeps {keeps : Storage → Prop} {d : Disk} (change : Storage → Storage)
    (hold : keeps d.storage) (hnew : keeps (change d.storage)) :
    keeps (d.write change).2.storage := by
  unfold write
  split
  · split
    · exact hold
    · exact hnew
  · exact hold

theorem write_accepted {d d' : Disk} {change : Storage → Storage}
    (h : d.write change = (none, d')) (hpresent : d'.present = true) :
    d'.storage = change d.storage := by
  unfold write at h
  split at h
  · split at h
    · cases h
    · cases h
      rfl
  · rename_i hmissing
    cases h
    exact absurd hpresent hmissing

theorem write_unrefused {d : Disk} {change : Storage → Storage} (hpresent : d.present = true)
    (h : ∀ err, (d.write change).1 ≠ some err) :
    (d.write change).2.present = true ∧ (d.write change).2.storage = change d.storage := by
  have hkept := (write_disk_present change d).trans hpresent
  exact ⟨hkept, write_accepted (Prod.ext (Option.eq_none_iff_forall_ne_some.mpr h) rfl) hkept⟩

def fails (n : Nat) (d : Disk) : Prop := d.present = true ∧ d.faults n ≠ none

instance (n : Nat) (d : Disk) : Decidable (d.fails n) := inferInstanceAs (Decidable (_ ∧ _))

def wrote (change : Storage → Storage) (d : Disk) : Disk :=
  if d.present then d.called (change d.storage) else d

section Fails
variable {d : Disk} (change : Storage → Storage)

theorem write_of_fails (h : d.fails 0) : ∃ err, d.write change = (some err, d.called d.storage) := by
  have ⟨text, hfault⟩ := Option.ne_none_iff_exists'.mp h.2
  exact ⟨.storage text, by simp [write, h.1, hfault]⟩

theorem write_of_not_fails (h : ¬ d.fails 0) : d.write change = (none, d.wrote change) := by
  unfold fails at h
  unfold write wrote
  split
  · rename_i hpresent
    cases hfault : d.faults 0 with
    | none => rfl
    | some text => simp [hpresent, hfault] at h
  · rfl

theorem wrote_fails (n : Nat) : (d.wrote change).fails n ↔ d.fails (n + 1) := by
  unfold wrote fails
  split
  · rfl
  · rename_i hmissing
    simp [hmissing]

theorem wrote_present : (d.wrote change).present = d.present := by
  unfold wrote
  split <;> rfl

end Fails

def Quiet (d : Disk) : Prop := d.faults = fun _ => none

def stores (change : Storage → Storage) (d : Disk) : Disk :=
  if d.present then { d with storage := change d.storage } else d

theorem stores_present (change : Storage → Storage) (d : Disk) :
    (d.stores change).present = d.present := by
  unfold stores
  split <;> rfl

theorem Quiet.write_eq {d : Disk} (h : d.Quiet) (change : Storage → Storage) :
    d.write change = (none, d.stores change) := by
  unfold Quiet at h
  unfold write stores
  split
  · simp [h, called]
  · rfl

theorem Quiet.read_eq {d : Disk} (h : d.Quiet) (view : Storage → α) :
    d.read view = (.ok (view d.storage), d) := by
  unfold Quiet at h
  cases d
  simp_all [read, called]

theorem Quiet.stores {d : Disk} (h : d.Quiet) (change : Storage → Storage) :
    (d.stores change).Quiet := by
  unfold Disk.stores
  split <;> exact h

structure Sound (d : Disk) : Prop where
  present : d.present = true
  faults : d.faults = fun _ => none

theorem Sound.write_eq {d : Disk} (h : d.Sound) (change : Storage → Storage) :
    d.write change = (none, { d with storage := change d.storage }) := by
  rw [Quiet.write_eq h.faults, stores, if_pos h.present]

theorem Sound.read_eq {d : Disk} (h : d.Sound) (view : Storage → α) :
    d.read view = (.ok (view d.storage), d) :=
  Quiet.read_eq h.faults view

end Disk

end QwerQ
