import QwerQ.Handlers
import QwerQ.Queue.Table
import QwerQ.Library.Run

/-! The storage mirrors the queues. Both are read as maps from queue and id to
the body of a message; in queue mode, without groups and over a storage that does
not fail, every operation changes the two maps in the same way. -/
namespace QwerQ
open Process World
variable {w : World} {name id : String} {q q' : Queue} {msg : Message} {used : List String}

def World.table (w : World) (key : String × String) : Option Body :=
  (w.queue? key.1).bind fun q => q.table key.2

variable {table : String × String → Option Body}

theorem World.table_of_queue? (hq : w.queue? name = some q) : w.table (name, id) = q.table id := by
  rw [table, hq, Option.bind_some]

theorem World.table_setQueue (q : Queue) (w : World) :
    (w.setQueue q).table = fun key => if key.1 = q.name then q.table key.2 else w.table key := by
  funext key
  by_cases hname : key.1 = q.name
  · rw [if_pos hname, table, hname, queue?_setQueue_self, Option.bind_some]
  · rw [if_neg hname, table, queue?_setQueue_of_ne w hname, table]

theorem World.table_setQueue_same (hq : w.queue? name = some q) (h : Queue.Becomes q q.table q') :
    (w.setQueue q').table = w.table := by
  have hname := queue?_name hq
  rw [table_setQueue, h.name, h.table, hname]
  funext key
  split
  · rename_i hkey
    rw [table, hkey, hq, Option.bind_some]
  · rfl

theorem World.table_setQueue_update {value : Option Body} (hq : w.queue? name = some q)
    (h : Queue.Becomes q (Function.update q.table id value) q') :
    (w.setQueue q').table = Function.update w.table (name, id) value := by
  have hname := queue?_name hq
  rw [table_setQueue, h.name, h.table, hname]
  funext key
  by_cases hkey : key.1 = name
  · rw [if_pos hkey, Function.update_apply, Function.update_apply, table, hkey, hq, Option.bind_some]
    by_cases hid : key.2 = id
    · rw [if_pos hid, if_pos (Prod.ext hkey hid)]
    · rw [if_neg hid, if_neg fun heq => hid (congrArg Prod.snd heq)]
  · rw [if_neg hkey, Function.update_of_ne fun heq => hkey (congrArg Prod.fst heq)]

structure Placed (used : List String) (table : String × String → Option Body) : Prop where
  lone : ∀ {name other id}, (table (name, id)).isSome → (table (other, id)).isSome → name = other
  used : ∀ {name id}, (table (name, id)).isSome → id ∈ used

theorem Placed.erase (h : Placed used table)
    (name id : String) : Placed used (Function.update table (name, id) none) := by
  have hold {other id' : String}
      (hsome : (Function.update table (name, id) none (other, id')).isSome) :
      (table (other, id')).isSome := by
    rw [Function.update_apply] at hsome
    split at hsome
    · cases hsome
    · exact hsome
  exact ⟨fun hleft hright => h.lone (hold hleft) (hold hright), fun hsome => h.used (hold hsome)⟩

theorem Placed.insert {body : Body}
    (h : Placed used table) (hfree : ∀ other, table (other, id) = none) (hused : id ∈ used) :
    Placed used (Function.update table (name, id) (some body)) := by
  have hcases {other id' : String}
      (hsome : (Function.update table (name, id) (some body) (other, id')).isSome) :
      other = name ∧ id' = id ∨ id' ≠ id ∧ (table (other, id')).isSome := by
    rw [Function.update_apply] at hsome
    split at hsome
    · rename_i hkey
      exact .inl ⟨congrArg Prod.fst hkey, congrArg Prod.snd hkey⟩
    · refine .inr ⟨?_, hsome⟩
      rintro rfl
      rw [hfree] at hsome
      cases hsome
  constructor
  · intro left right id' hleft hright
    rcases hcases hleft with ⟨rfl, rfl⟩ | ⟨hne, hleft⟩
    · rcases hcases hright with ⟨rfl, _⟩ | ⟨hne, _⟩
      · rfl
      · exact absurd rfl hne
    · rcases hcases hright with ⟨_, hid⟩ | ⟨_, hright⟩
      · exact absurd hid hne
      · exact h.lone hleft hright
  · intro other id' hsome
    rcases hcases hsome with ⟨_, rfl⟩ | ⟨_, hold⟩
    · exact hused
    · exact h.used hold

theorem Placed.mono {more : List String}
    (h : Placed used table) (hmore : ∀ id ∈ used, id ∈ more) : Placed more table :=
  ⟨h.lone, fun hsome => hmore _ (h.used hsome)⟩

theorem Placed.clear (h : Placed used table)
    (name : String) : Placed used fun key => if key.1 = name then none else table key := by
  have hold {other id : String} (hsome : (if other = name then none else table (other, id)).isSome) :
      (table (other, id)).isSome := by
    split at hsome
    · cases hsome
    · exact hsome
  exact ⟨fun hleft hright => h.lone (hold hleft) (hold hright), fun hsome => h.used (hold hsome)⟩

def storedConfig (w : World) (name : String) : Option (String × QueueConfig) :=
  (w.queue? name).map fun _ => (name, newConfig (Queue.new name))

/-- What the storage and the queues hold, with all that lets a handler return. -/
structure Holds (stored live : String × String → Option Body) (w : World) : Prop where
  sound : w.disk.Sound
  stored : w.disk.storage.table = stored
  live : w.table = live
  orderly : ∀ {name q}, w.queue? name = some q → q.Orderly
  configs : ∀ name, w.disk.storage.queues.find? name = storedConfig w name

section Holds
variable {stored live : String × String → Option Body}

theorem Holds.saveMessage (h : Holds stored live w) (msg : Message) :
    Holds (Function.update stored (msg.queue, msg.id) (some msg.body)) live
      (w.store (Storage.saveMessage msg)) where
  sound := ⟨h.sound.present, h.sound.faults⟩
  stored := by
    rw [← h.stored]
    exact Storage.table_saveMessage msg _
  live := h.live
  orderly := h.orderly
  configs := h.configs

theorem Holds.deleteMessage (h : Holds stored live w) (queue id : String) :
    Holds (Function.update stored (queue, id) none) live
      (w.store (Storage.deleteMessage queue id)) where
  sound := ⟨h.sound.present, h.sound.faults⟩
  stored := by
    rw [← h.stored]
    exact Storage.table_deleteMessage queue id _
  live := h.live
  orderly := h.orderly
  configs := h.configs

theorem Holds.deleteQueueMessages (h : Holds stored live w) (queue : String) :
    Holds (fun key => if key.1 = queue then none else stored key) live
      (w.store (Storage.deleteQueueMessages queue)) where
  sound := ⟨h.sound.present, h.sound.faults⟩
  stored := by
    rw [← h.stored]
    exact Storage.table_deleteQueueMessages queue _
  live := h.live
  orderly := h.orderly
  configs := h.configs

theorem storedConfig_setQueue (hq : w.queue? name = some q) (hname : q'.name = q.name)
    (other : String) : storedConfig (w.setQueue q') other = storedConfig w other := by
  have hsame : q'.name = name := hname.trans (queue?_name hq)
  by_cases hother : other = q'.name
  · rw [storedConfig, storedConfig, hother, queue?_setQueue_self, hsame, hq]
    rfl
  · rw [storedConfig, storedConfig, queue?_setQueue_of_ne w hother]

theorem Holds.setQueue {table : String → Option Body} (h : Holds stored live w)
    (hq : w.queue? name = some q) (hq' : Queue.Becomes q table q') :
    Holds stored (w.setQueue q').table (w.setQueue q') where
  sound := h.sound
  stored := h.stored
  live := rfl
  orderly := by
    intro other found hfound
    by_cases hother : other = q'.name
    · rw [hother, queue?_setQueue_self] at hfound
      cases hfound
      exact hq'.orderly
    · rw [queue?_setQueue_of_ne w hother] at hfound
      exact h.orderly hfound
  configs := by
    intro other
    rw [storedConfig_setQueue hq hq'.name]
    exact h.configs other

theorem Holds.setQueue_same (h : Holds stored live w) (hq : w.queue? name = some q)
    (hq' : Queue.Becomes q q.table q') : Holds stored live (w.setQueue q') := by
  have hset := h.setQueue hq hq'
  rwa [table_setQueue_same hq hq', h.live] at hset

theorem Holds.setQueue_update {value : Option Body} (h : Holds stored live w)
    (hq : w.queue? name = some q)
    (hq' : Queue.Becomes q (Function.update q.table id value) q') :
    Holds stored (Function.update live (name, id) value) (w.setQueue q') := by
  have hset := h.setQueue hq hq'
  rwa [table_setQueue_update hq hq', h.live] at hset

theorem Holds.of_queues {w' : World} (h : Holds stored live w)
    (hqueues : w'.broker.queues = w.broker.queues) (hdisk : w'.disk = w.disk) :
    Holds stored live w' := by
  have hqueue? (name : String) : w'.queue? name = w.queue? name := by
    rw [World.queue?, hqueues, World.queue?]
  refine ⟨hdisk ▸ h.sound, hdisk ▸ h.stored, ?_, ?_, ?_⟩
  · rw [← h.live]
    funext key
    rw [World.table, hqueue?, World.table]
  · intro name q hq
    exact h.orderly ((hqueue? name).symm.trans hq)
  · intro name
    rw [hdisk, h.configs, storedConfig, storedConfig, hqueue?]

theorem Holds.createQueue (h : Holds stored live w) (name : String) :
    (createQueue name w).1 = none ∧ Holds stored live (createQueue name w).2 ∧
      (∃ q, (createQueue name w).2.queue? name = some q ∧
        q = (w.queue? name).getD (Queue.new name)) ∧
      ∀ other, other ≠ name → (createQueue name w).2.queue? other = w.queue? other := by
  cases hq : w.queue? name with
  | some q =>
    rw [QwerQ.createQueue, hq]
    exact ⟨rfl, h, ⟨q, hq, rfl⟩, fun _ _ => rfl⟩
  | none =>
    rw [createQueue_sound h.sound hq]
    have hnew {other : String} (hother : other ≠ name) :
        (w.setQueue (Queue.new name)).queue? other = w.queue? other :=
      queue?_setQueue_of_ne w hother
    have hself : (w.setQueue (Queue.new name)).queue? name = some (Queue.new name) :=
      queue?_setQueue_self (Queue.new name) w
    refine ⟨rfl, ⟨⟨h.sound.present, h.sound.faults⟩, h.stored, ?_, ?_, ?_⟩, ⟨_, hself, rfl⟩,
      fun other hother => hnew hother⟩
    · rw [← h.live]
      change (w.setQueue (Queue.new name)).table = w.table
      rw [table_setQueue, Queue.table_new]
      funext key
      split
      · rename_i hkey
        rw [World.table, hkey]
        change none = (w.queue? name).bind _
        rw [hq]
        rfl
      · rfl
    · intro other found hfound
      by_cases hother : other = name
      · rw [hother, queue?_store _ _ name, hself] at hfound
        cases hfound
        exact Queue.orderly_new name
      · rw [queue?_store, hnew hother] at hfound
        exact h.orderly hfound
    · intro other
      change (w.disk.storage.queues.insert _).find? other = _
      rw [KeyedMap.find?_insert, storedConfig, queue?_store]
      by_cases hother : other = name
      · rw [if_pos hother, hother, hself]
        rfl
      · rw [if_neg hother, hnew hother, h.configs other]
        rfl

end Holds

/-- The state between two operations: the storage holds what the queues hold.
`used` are the ids that have been published. -/
structure Mirrors (used : List String) (w : World) : Prop where
  holds : Holds w.table w.table w
  placed : Placed used w.table

theorem Mirrors.of_holds (h : Holds table table w)
    (hplaced : Placed used table) : Mirrors used w := by
  have htable := h.live
  subst htable
  exact ⟨h, hplaced⟩

end QwerQ
