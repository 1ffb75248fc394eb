import QwerQ.Broker.Durability
import QwerQ.Cluster

/-! What a publish on a single node leaves under its id: the live message, the record in
the storage and the idempotency keys, whichever of its checks or storage calls fails. -/
namespace QwerQ
open Process World
variable {w w' : World} {queue id : String} {q q' : Queue} {msg : Message} {passes : Env}

def Body.inMillis (body : Body) : Body :=
  { body with publishedAt := ofUnixMilli (unixMilli body.publishedAt) }

/-- The message a queue has taken last under an id: the last one pending, or else the
one in flight. -/
def Queue.latest (id : String) (q : Queue) : Option Message :=
  (q.messages.reverse.find? fun msg => msg.id = id).or (q.inFlight.find? id)

/-- What a world holds under a queue and an id, with times in milliseconds: the live
message, the record, the stream of that name and the idempotency keys. -/
structure Imprint where
  live : Option Body
  stored : Option (SnapshotMessage × String)
  stream : Option StreamQueue
  dedup : Option IdempotencyTracker

namespace Imprint

def setLive (live : Option Body) (i : Imprint) : Imprint := { i with live := live }
def setStored (stored : Option (SnapshotMessage × String)) (i : Imprint) : Imprint :=
  { i with stored := stored }
def setDedup (dedup : Option IdempotencyTracker) (i : Imprint) : Imprint := { i with dedup := dedup }

end Imprint

def World.imprint (queue id : String) (w : World) : Imprint where
  live := ((w.queueAt queue).latest id).map fun msg => msg.body.inMillis
  stored := (w.disk.storage.messages.find? (queue, id)).map Message.contents
  stream := w.stream? queue
  dedup := w.broker.dedup

theorem Queue.Carries.latest (h : q.Carries msg) :
    (q.latest msg.id).map (fun msg => msg.body.inMillis) = some msg.body.inMillis := by
  unfold Queue.latest
  rcases h with hlast | ⟨hnil, entry, hfind, hbody⟩
  · rw [List.getLast?_eq_head?_reverse, List.head?_eq_some_iff] at hlast
    have ⟨rest, hrest⟩ := hlast
    simp [hrest]
  · simp [hnil, hfind, hbody]

theorem imprint_disk (disk : Disk) (w : World) : ({ w with disk := disk } : World).imprint queue id =
    (w.imprint queue id).setStored
      ((disk.storage.messages.find? (queue, id)).map Message.contents) := rfl

theorem imprint_setQueue (hq : w.queue? queue = some q) (hname : q'.name = q.name) (id : String) :
    (w.setQueue q').imprint queue id =
      (w.imprint queue id).setLive ((q'.latest id).map fun msg => msg.body.inMillis) := by
  simp only [World.imprint, queueAt_of_some (queue?_put q' hq hname)]
  rfl

theorem imprint_setQueue_same (hq : w.queue? queue = some q) (id : String) :
    (w.setQueue q).imprint queue id = w.imprint queue id := by
  rw [imprint_setQueue hq rfl]
  simp only [World.imprint, queueAt_of_some hq]
  rfl

/-- The record under a key after a call that has put `record` there, if there is a
storage. -/
def World.recorded (queue id : String) (record : Option (SnapshotMessage × String)) (w : World) :
    Option (SnapshotMessage × String) :=
  if w.disk.present then record else (w.imprint queue id).stored

theorem recorded_saveMessage (msg : Message) (w : World) :
    ((w.disk.wrote (Storage.saveMessage msg)).storage.messages.find? (msg.queue, msg.id)).map
      Message.contents = w.recorded msg.queue msg.id (some msg.contents) := by
  unfold Disk.wrote World.recorded
  split
  · exact congrArg (Option.map Message.contents) (KeyedMap.find?_insert_self _ msg)
  · rfl

theorem recorded_rolledBack (msg : Message) (w : World) :
    (((w.disk.wrote (Storage.saveMessage msg)).wrote
      (Storage.deleteMessage msg.queue msg.id)).storage.messages.find? (msg.queue, msg.id)).map
        Message.contents = w.recorded msg.queue msg.id none := by
  unfold World.recorded Disk.wrote
  cases hpresent : w.disk.present with
  | false => simp [hpresent, World.imprint]
  | true => simp [hpresent, Disk.called, Storage.deleteMessage]

/-- The queue is there, and of the calls to come some have been made. -/
structure Readied (queue : String) (w w' : World) : Prop where
  found : w'.queue? queue = some (w.queueAt queue)
  imprint : ∀ id, w'.imprint queue id = w.imprint queue id
  present : w'.disk.present = w.disk.present
  fails : ∀ n, w'.disk.fails n ↔ w.disk.fails (n + creationCalls queue w)

theorem Readied.recorded {record : Option (SnapshotMessage × String)} (h : Readied queue w w') :
    w'.recorded queue id record = w.recorded queue id record := by
  rw [World.recorded, h.present, h.imprint, World.recorded]

theorem createQueue_readies (h : w.Gets queue) :
    (createQueue queue w).1 = none ∧ Readied queue w (createQueue queue w).2 := by
  obtain ⟨hptr, hopened⟩ := createQueue_opened queue w
  have hfound := createQueue_found h
  refine ⟨?_, hfound, fun id => ?_, hopened.present, hopened.fails⟩
  · cases hcreate : (createQueue queue w).1 with
    | none => rfl
    | some err =>
      rw [hcreate, hfound] at hptr
      cases hptr
  · have hstream : (createQueue queue w).2.stream? queue = w.stream? queue := by
      rw [World.stream?, hopened.broker, World.stream?]
    have hdedup : (createQueue queue w).2.broker.dedup = w.broker.dedup := by rw [hopened.broker]
    simp only [World.imprint, hopened.queueAt, hopened.messages, hstream, hdedup]

section Save
variable (hq : w.queue? msg.queue = some q) (hsaves : ¬ w.disk.fails 0)
include hq hsaves

theorem returns_saveAndEnqueue {post : Option Err → World → Prop} (hroom : q.full = false) :
    (saveAndEnqueue (some msg.queue) msg passes).Returns w post ↔
      ∃ q', q.enqueueDirect msg passes = .ok q' ∧
        post none { w.setQueue q' with disk := w.disk.wrote (Storage.saveMessage msg) } := by
  have hsaved : ({ w with disk := w.disk.wrote (Storage.saveMessage msg) } : World).queue? msg.queue =
      some q := hq
  simp only [saveAndEnqueue, saveMessage, enqueue, returns_bind, returns_write,
    Disk.write_of_not_fails _ hsaves, returns_lockedPure hsaved, Queue.enqueue, hroom,
    Bool.false_eq_true, if_false, Go.bind_eq_ok, Go.pure_eq]
  constructor
  · rintro ⟨q', _, ⟨_, hdirect, ⟨⟩⟩, hpost⟩
    exact ⟨q', hdirect, hpost⟩
  · rintro ⟨q', hdirect, hpost⟩
    exact ⟨q', none, ⟨q', hdirect, rfl⟩, hpost⟩

theorem saveAndEnqueue_full (hfull : q.full = true) :
    (saveAndEnqueue (some msg.queue) msg passes).Returns w fun err w' => err.isSome = true ∧
      w'.imprint msg.queue msg.id = (w.imprint msg.queue msg.id).setStored
        (w.recorded msg.queue msg.id (if w.disk.fails 1 then some msg.contents else none)) := by
  have hsaved : ({ w with disk := w.disk.wrote (Storage.saveMessage msg) } : World).queue? msg.queue =
      some q := hq
  simp only [saveAndEnqueue, saveMessage, enqueue, deleteMessage, returns_bind, returns_write,
    Disk.write_of_not_fails _ hsaves, returns_lockedPure hsaved, Queue.enqueue, hfull, if_true,
    Except.ok.injEq, Prod.mk.injEq]
  refine ⟨q, _, ⟨rfl, rfl⟩, ?_⟩
  have hnext := Disk.wrote_fails (d := w.disk) (Storage.saveMessage msg) 0
  by_cases hundone : w.disk.fails 1
  · obtain ⟨rbErr, hwrite⟩ := Disk.write_of_fails (Storage.deleteMessage msg.queue msg.id)
      (hnext.mpr hundone)
    simp only [returns_bind, returns_write, setQueue_disk, hwrite]
    refine ⟨rfl, ?_⟩
    rw [imprint_disk, imprint_setQueue_same hsaved, if_pos hundone, ← recorded_saveMessage]
    rfl
  · have hwrite := Disk.write_of_not_fails (Storage.deleteMessage msg.queue msg.id)
      (mt hnext.mp hundone)
    simp only [returns_bind, returns_write, setQueue_disk, hwrite]
    refine ⟨rfl, ?_⟩
    rw [imprint_disk, imprint_setQueue_same hsaved, if_neg hundone, recorded_rolledBack]
    rfl

end Save

theorem storeAndEnqueue_uncreated (hq : w.queue? msg.queue = none) (hfails : w.disk.fails 0) :
    (storeAndEnqueue msg passes).Returns w fun result w' => result.toOption = none ∧
      w'.imprint msg.queue msg.id = w.imprint msg.queue msg.id := by
  have ⟨err, hcreate⟩ := createQueue_fails hq hfails
  simp only [storeAndEnqueue, returns_bind, returns_getOrCreateQueueWithError, hcreate]
  exact ⟨rfl, rfl⟩

section Store
variable (hcreates : w.Gets msg.queue)
include hcreates

theorem storeAndEnqueue_unsaved (hfails : w.disk.fails (creationCalls msg.queue w)) :
    (storeAndEnqueue msg passes).Returns w fun result w' => result.toOption = none ∧
      w'.imprint msg.queue msg.id = w.imprint msg.queue msg.id := by
  have hready := (createQueue_readies hcreates).2
  have ⟨err, hwrite⟩ := Disk.write_of_fails (Storage.saveMessage msg)
    ((hready.fails 0).mpr (by rwa [Nat.zero_add]))
  rw [returns_storeAndEnqueue_saves (createQueue_readies hcreates).1]
  simp only [saveAndEnqueue, saveMessage, returns_bind, returns_write, hwrite]
  exact ⟨rfl, hready.imprint _⟩

variable (hsaves : ¬ w.disk.fails (creationCalls msg.queue w))
include hsaves

theorem storeAndEnqueue_full (hfull : (w.queueAt msg.queue).full = true) :
    (storeAndEnqueue msg passes).Returns w fun result w' => result.toOption = none ∧
      w'.imprint msg.queue msg.id = (w.imprint msg.queue msg.id).setStored
        (w.recorded msg.queue msg.id
          (if w.disk.fails (1 + creationCalls msg.queue w) then some msg.contents else none)) := by
  have hready := (createQueue_readies hcreates).2
  have hsaves' : ¬ (createQueue msg.queue w).2.disk.fails 0 := by
    rwa [hready.fails, Nat.zero_add]
  rw [returns_storeAndEnqueue_saves (createQueue_readies hcreates).1]
  refine (saveAndEnqueue_full hready.found hsaves' hfull).mono fun refused w' ⟨hsome, himprint⟩ => ⟨?_, ?_⟩
  · cases refused with
    | none => cases hsome
    | some err => rfl
  · rw [himprint, hready.recorded, hready.imprint, if_congr (hready.fails 1) rfl rfl]

theorem returns_storeAndEnqueue_room {post : Except Err String → World → Prop}
    (hroom : (w.queueAt msg.queue).full = false) :
    (storeAndEnqueue msg passes).Returns w post ↔
      ∃ q', (w.queueAt msg.queue).enqueueDirect msg passes = .ok q' ∧
        post (.ok msg.id) { (createQueue msg.queue w).2.setQueue q' with
          disk := (createQueue msg.queue w).2.disk.wrote (Storage.saveMessage msg) } := by
  have hready := (createQueue_readies hcreates).2
  have hsaves' : ¬ (createQueue msg.queue w).2.disk.fails 0 := by
    rwa [hready.fails, Nat.zero_add]
  rw [returns_storeAndEnqueue_saves (createQueue_readies hcreates).1]
  exact returns_saveAndEnqueue hready.found hsaves' hroom

theorem storeAndEnqueue_taken (hroom : (w.queueAt msg.queue).full = false)
    (htaken : (w.queueAt msg.queue).enqueueDirect msg passes = .ok q') :
    (storeAndEnqueue msg passes).Returns w fun result w' => result.toOption = some msg.id ∧
      w'.imprint msg.queue msg.id = ((w.imprint msg.queue msg.id).setLive
        (some msg.body.inMillis)).setStored (w.recorded msg.queue msg.id (some msg.contents)) := by
  have hready := (createQueue_readies hcreates).2
  refine (returns_storeAndEnqueue_room hcreates hsaves hroom).mpr ⟨q', htaken, rfl, ?_⟩
  rw [imprint_disk, imprint_setQueue hready.found (Queue.enqueueDirect_name htaken),
    recorded_saveMessage, hready.recorded, hready.imprint,
    (Queue.enqueueDirect_carries htaken).latest]

end Store

section Keys
variable {b : Broker} {key : String} {now : Time}

theorem Broker.checkKey_unkeyed (h : key = "" ∨ b.dedup = none) : b.checkKey key now = (none, b) := by
  unfold Broker.checkKey
  cases hdedup : b.dedup with
  | none => rfl
  | some tracker =>
    have hkey : key = "" := h.resolve_right (by simp [hdedup])
    simp only [IdempotencyTracker.check, hkey, if_true, ← hdedup]

theorem Broker.checkKey_recorded {tracker : IdempotencyTracker} (hdedup : b.dedup = some tracker)
    (httl : 0 < tracker.ttl) (hkey : key ≠ "") (h : (b.checkKey key now).1 = none) :
    (b.checkKey key now).2.dedup ≠ b.dedup := by
  simp only [Broker.checkKey, hdedup, IdempotencyTracker.check, if_neg hkey] at h ⊢
  split at h
  · cases h
  · rename_i hunseen
    rw [if_neg hunseen]
    intro hsame
    -- Clearing expired keys away changes neither the time to live nor the new entry.
    have hfind : tracker.keys.find? key = some (key, now + tracker.ttl) := by
      rw [← congrArg (fun tracker => tracker.keys.find? key) (Option.some.inj hsame)]
      split <;> exact KeyedMap.find?_insert_self _ (key, now + tracker.ttl)
    rw [hfind] at hunseen
    simp [httl] at hunseen

end Keys

section Checks
variable {req : PublishRequest} {env : PublishEnv}

def Unkeyed (req : PublishRequest) (w : World) : Prop :=
  req.idempotencyKey = "" ∨ w.broker.dedup = none

theorem World.imprint_keyed (w : World) : (w.keyed req env).imprint queue id =
    (w.imprint queue id).setDedup (w.keyed req env).broker.dedup := by
  simp only [World.imprint, queueAt_keyed, stream?_keyed]
  rfl

def Broker.KeepsKeys (b : Broker) : Prop := ∀ tracker, b.dedup = some tracker → 0 < tracker.ttl

theorem Broker.new_keepsKeys (memoryLimit : UInt64) : (Broker.new memoryLimit).KeepsKeys := by
  rintro tracker ⟨⟩
  decide

theorem World.keyed_dedup_iff (hkeeps : w.broker.KeepsKeys) (hchecked : ¬ Refused req env w) :
    (w.keyed req env).broker.dedup = w.broker.dedup ↔ Unkeyed req w := by
  constructor
  · intro hsame
    by_contra hkeyed
    rw [Unkeyed, not_or] at hkeyed
    have ⟨tracker, hdedup⟩ := Option.ne_none_iff_exists'.mp hkeyed.2
    have hnew := not_not.mp (not_or.mp hchecked).2
    exact Broker.checkKey_recorded hdedup (hkeeps tracker hdedup) hkeyed.1 hnew hsame
  · intro hunkeyed
    rw [World.keyed, Broker.checkKey_unkeyed hunkeyed]

variable (env)

theorem World.recorded_keyed (w : World) (record : Option (SnapshotMessage × String)) :
    (w.keyed req env).recorded queue id record = w.recorded queue id record := by
  rw [World.recorded, imprint_keyed, World.recorded]
  rfl

def World.Stores (queue : String) (w : World) : Prop :=
  ∀ n ≤ creationCalls queue w, ¬ w.disk.fails n

theorem World.Stores.creates (h : w.Stores queue) : w.Gets queue :=
  .inr (h 0 (Nat.zero_le _))

theorem creationCalls_keyed (w : World) :
    creationCalls queue (w.keyed req env) = creationCalls queue w := by
  rw [creationCalls, queue?_keyed, creationCalls]

theorem World.Stores.keyed (h : w.Stores queue) (req : PublishRequest) (env : PublishEnv) :
    (w.keyed req env).Stores queue := by
  unfold World.Stores
  rwa [creationCalls_keyed]

theorem storeAndEnqueue_unstored (h : ¬ w.Stores msg.queue) :
    (storeAndEnqueue msg passes).Returns w fun result w' => result.toOption = none ∧
      w'.imprint msg.queue msg.id = w.imprint msg.queue msg.id := by
  simp only [World.Stores, not_forall, not_not] at h
  have ⟨n, hn, hfails⟩ := h
  cases hq : w.queue? msg.queue with
  | some q =>
    have hcalls : creationCalls msg.queue w = 0 := by rw [creationCalls, hq]; rfl
    rw [hcalls, Nat.le_zero] at hn
    refine storeAndEnqueue_unsaved (.inl (by rw [hq]; rfl)) ?_
    rwa [hcalls, ← hn]
  | none =>
    have hcalls : creationCalls msg.queue w = 1 := by rw [creationCalls, hq]; rfl
    by_cases hfirst : w.disk.fails 0
    · exact storeAndEnqueue_uncreated hq hfirst
    · refine storeAndEnqueue_unsaved (.inr hfirst) ?_
      rw [hcalls] at hn ⊢
      rcases Nat.le_one_iff_eq_zero_or_eq_one.mp hn with rfl | rfl
      · exact absurd hfails hfirst
      · exact hfails

section Single
variable (hchecked : ¬ Refused req env w)
include hchecked

theorem handlePublish_unstored (h : ¬ w.Stores req.queue) :
    (handlePublish req env).Returns w fun result w' => result.toOption = none ∧
      w'.imprint req.queue (publishId req env) =
        (w.imprint req.queue (publishId req env)).setDedup (w.keyed req env).broker.dedup := by
  have hunstored : ¬ (w.keyed req env).Stores (publishMessage req env).queue := by
    unfold World.Stores
    rwa [creationCalls_keyed]
  rw [returns_handlePublish env hchecked, ← imprint_keyed]
  exact storeAndEnqueue_unstored hunstored

variable (hstores : w.Stores req.queue)
include hstores

theorem handlePublish_full (hfull : (w.queueAt req.queue).full = true) :
    (handlePublish req env).Returns w fun result w' => result.toOption = none ∧
      w'.imprint req.queue (publishId req env) =
        ((w.imprint req.queue (publishId req env)).setDedup (w.keyed req env).broker.dedup).setStored
          (w.recorded req.queue (publishId req env) (if w.disk.fails (1 + creationCalls req.queue w)
            then some (publishMessage req env).contents else none)) := by
  have hkeyed := hstores.keyed req env
  rw [← queueAt_keyed] at hfull
  rw [returns_handlePublish env hchecked, ← imprint_keyed, ← recorded_keyed env,
    ← creationCalls_keyed env]
  exact storeAndEnqueue_full hkeyed.creates (hkeyed _ (Nat.le_refl _)) hfull

theorem handlePublish_taken (hroom : (w.queueAt req.queue).full = false)
    (htaken : (w.queueAt req.queue).enqueueDirect (publishMessage req env) env.enqueue = .ok q') :
    (handlePublish req env).Returns w fun result w' => result.toOption = some (publishId req env) ∧
      w'.imprint req.queue (publishId req env) =
        (((w.imprint req.queue (publishId req env)).setDedup (w.keyed req env).broker.dedup).setLive
          (some (publishMessage req env).body.inMillis)).setStored
            (w.recorded req.queue (publishId req env) (some (publishMessage req env).contents)) := by
  have hkeyed := hstores.keyed req env
  rw [← queueAt_keyed] at hroom htaken
  rw [returns_handlePublish env hchecked, ← imprint_keyed, ← recorded_keyed env]
  exact storeAndEnqueue_taken hkeyed.creates (hkeyed _ (Nat.le_refl _)) hroom htaken

theorem handlePublish_returns_iff (hroom : (w.queueAt req.queue).full = false) :
    (handlePublish req env).Returns w (fun _ _ => True) ↔
      ∃ q', (w.queueAt req.queue).enqueueDirect (publishMessage req env) env.enqueue = .ok q' := by
  have hkeyed := hstores.keyed req env
  have hroom' : ((w.keyed req env).queueAt (publishMessage req env).queue).full = false := by
    rw [queueAt_keyed]
    exact hroom
  rw [returns_handlePublish env hchecked,
    returns_storeAndEnqueue_room hkeyed.creates (hkeyed _ (Nat.le_refl _)) hroom',
    queueAt_keyed]
  simp only [and_true]
  rfl

end Single

end Checks

end QwerQ
