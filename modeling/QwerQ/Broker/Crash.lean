import QwerQ.Broker.DeadLetter
import QwerQ.Broker.Recovery

/-! Moves between a queue and its DLQ that a crash may cut off at any point. The
broker is lost with the process; what `LoadFromStorage` can bring back is what the
storage holds at that point. -/
namespace QwerQ
open List Process Option World
variable {w : World} {name id : String} {q : Queue} {msg : Message}

def World.Recorded (name id : String) (w : World) : Prop :=
  w.HasRecord name id ∨ w.HasRecord (dlqName name) id

instance (name id : String) (w : World) : Decidable (w.Recorded name id) :=
  inferInstanceAs (Decidable (_ ∨ _))

/-- The storage does not fail and holds a configuration of every queue. -/
structure Configured (w : World) : Prop where
  sound : w.disk.Sound
  configs : ∀ {name}, (w.queue? name).isSome →
    ∃ config, (name, config) ∈ w.disk.storage.queues.entries ∧ config.mode ≠ .stream

variable {change : Storage → Storage} {dlq : Queue} {final : Message} {crash : World → Prop}
  {post : Unit → World → Prop} {env : NackEnv} {groupName : String} {requeue : Bool}

theorem Configured.loads (h : Configured w) (hq : (w.queue? name).isSome) (hrecord : w.HasRecord name id)
    (memoryLimit : UInt64) (order : List String) (env : Message → Env) :
    ∃ w', (loadFromStorage order env).run (w.restarted memoryLimit) = (.ok none, w') ∧
      id ∈ w'.liveIds name := by
  have ⟨config, hconfig, hmode⟩ := h.configs hq
  have ⟨msg, hfind⟩ := isSome_iff_exists.mp hrecord
  have ⟨hmem, hkey⟩ := KeyedMap.find?_eq_some_iff.mp hfind
  have ⟨w', hrun, hrecovered⟩ := restarted_recovers memoryLimit order env h.sound
  have hentry : w.disk.storage.queues.find? name = some (name, config) :=
    KeyedMap.find?_eq_some_iff.mpr ⟨hconfig, rfl⟩
  have hstored : msg ∈ w.disk.storage.loadMessages name :=
    Storage.mem_loadMessages.mpr ⟨hmem, congrArg Prod.fst hkey⟩
  refine ⟨w', hrun, ?_⟩
  rw [World.liveIds, hrecovered.queue_eq hentry hmode, map_some, getD_some, Queue.live,
    map_append, mem_append]
  left
  rw [Storage.loadedQueue, List.map_map]
  exact mem_map.mpr ⟨msg, hstored, congrArg Prod.snd hkey⟩

theorem Configured.setQueue (h : Configured w) (hq : (w.queue? q.name).isSome) :
    Configured (w.setQueue q) where
  sound := h.sound
  configs := by
    intro other hother
    by_cases hname : other = q.name
    · exact h.configs (hname ▸ hq)
    · rw [queue?_setQueue_of_ne w hname] at hother
      exact h.configs hother

theorem Configured.store (h : Configured w)
    (hqueues : ∀ s, (change s).queues = s.queues) : Configured (w.store change) where
  sound := ⟨h.sound.present, h.sound.faults⟩
  configs := by
    intro other hother
    change ∃ config, (other, config) ∈ (change w.disk.storage).queues.entries ∧ _
    rw [hqueues]
    exact h.configs hother

theorem Configured.createQueue (h : Configured w) (name : String) :
    Configured (createQueue name w).2 := by
  cases hq : w.queue? name with
  | some q => rwa [QwerQ.createQueue, hq]
  | none =>
    rw [createQueue_sound h.sound hq]
    refine ⟨⟨h.sound.present, h.sound.faults⟩, fun {other} hother => ?_⟩
    change ∃ config, (other, config) ∈ (w.disk.storage.queues.insert _).entries ∧ _
    simp only [KeyedMap.mem_entries_insert]
    by_cases hname : other = name
    · exact ⟨newConfig (Queue.new name), .inr (by rw [hname]), fun hstream => by cases hstream⟩
    · rw [queue?_store, queue?_setQueue_of_ne w hname] at hother
      obtain ⟨config, hconfig, hmode⟩ := h.configs hother
      exact ⟨config, .inl ⟨hconfig, hname⟩, hmode⟩

/-- The state between two steps of `RetryDLQ`. The messages of a DLQ carry its
name, which is where a refused message is stored again. -/
structure Retrying (name id : String) (w : World) : Prop where
  configured : Configured w
  queue : (w.queue? name).isSome
  dlq : ∃ dlq, w.queue? (dlqName name) = some dlq ∧ ∀ msg ∈ dlq.messages, msg.queue = dlqName name
  recorded : w.Recorded name id

theorem Retrying.store (h : Retrying name id w)
    (hqueues : ∀ s, (change s).queues = s.queues) (hrecorded : (w.store change).Recorded name id) :
    Retrying name id (w.store change) :=
  ⟨h.configured.store hqueues, h.queue, h.dlq, hrecorded⟩

theorem Retrying.saveMessage (h : Retrying name id w) (msg : Message) :
    Retrying name id (w.store (Storage.saveMessage msg)) := by
  refine h.store (fun _ => rfl) ?_
  simp only [World.Recorded, hasRecord_saveMessage]
  exact h.recorded.imp .inr .inr

theorem Retrying.deleteMessage {source target other : String} (h : Retrying name id w)
    (hpair : source = name ∧ target = dlqName name ∨ source = dlqName name ∧ target = name)
    (hother : w.HasRecord target other) :
    Retrying name id (w.store (Storage.deleteMessage source other)) := by
  refine h.store (fun _ => rfl) ?_
  simp only [World.Recorded, hasRecord_deleteMessage]
  by_cases hid : id = other
  · subst hid
    have hne := dlqName_ne name
    rcases hpair with ⟨rfl, rfl⟩ | ⟨rfl, rfl⟩
    · exact .inr ⟨fun h => hne h.1, hother⟩
    · exact .inl ⟨fun h => hne h.1.symm, hother⟩
  · exact h.recorded.imp (fun hrecord => ⟨fun h => hid h.2, hrecord⟩)
      fun hrecord => ⟨fun h => hid h.2, hrecord⟩

theorem Retrying.setQueue (h : Retrying name id w) (hname : q.name = name) :
    Retrying name id (w.setQueue q) := by
  subst hname
  refine ⟨h.configured.setQueue h.queue, isSome_queue?_setQueue h.queue, ?_, h.recorded⟩
  rw [queue?_setQueue_of_ne w (dlqName_ne q.name)]
  exact h.dlq

/-- The state in which the DLQ has answered and no call has been made. -/
def World.answered (name : String) (dlq : Queue) (w : World) : World :=
  (createQueue (dlqName name) w).2.setQueue dlq

inductive Move where
  | nack (id groupName : String) (requeue : Bool) (env : NackEnv)
  | retry (env : Nat → RetryEnv)

def Move.program (name : String) : Move → Prog Unit
  | .nack id groupName requeue env => do let _ ← handleNack id name groupName requeue env
  | .retry env => do let _ ← retryDLQ name env

private structure KeptInDLQ (name id : String) (w : World) : Prop where
  configured : Configured w
  dlq : (w.queue? (dlqName name)).isSome
  record : w.HasRecord (dlqName name) id

private theorem KeptInDLQ.setQueue (h : KeptInDLQ name id w) (hq : (w.queue? q.name).isSome) :
    KeptInDLQ name id (w.setQueue q) :=
  ⟨h.configured.setQueue hq, isSome_queue?_setQueue h.dlq, h.record⟩

private theorem KeptInDLQ.calls (h : KeptInDLQ name id w) (final : Message) :
    KeptInDLQ name id (w.store (Storage.deleteMessage name id)) ∧
      KeptInDLQ name id ((w.store (Storage.deleteMessage name id)).store
        (Storage.saveMessage final)) := by
  have hdeleted : KeptInDLQ name id (w.store (Storage.deleteMessage name id)) :=
    ⟨h.configured.store fun _ => rfl, h.dlq, hasRecord_deleteMessage.mpr
      ⟨fun heq => dlqName_ne name heq.1, h.record⟩⟩
  exact ⟨hdeleted, hdeleted.configured.store fun _ => rfl, hdeleted.dlq,
    hasRecord_saveMessage.mpr (.inr hdeleted.record)⟩

end QwerQ
