import QwerQ.Broker

/-! What `LoadFromStorage` leaves in a new broker over a storage that does not
fail, in closed form: every queue and every stream as a function of the storage
that was read, and the configurations that creating them again has stored. -/
namespace QwerQ
open List Process KeyedMap Option
variable {w : World} {name : String}

def Queue.configured (config : QueueConfig) (q : Queue) : Queue :=
  { q with
    maxSize := if config.maxSizeSet ∨ config.maxSize ≠ 0 then config.maxSize else q.maxSize
    maxRetries := if config.maxRetries ≠ 0 then .ofInt config.maxRetries else q.maxRetries
    failurePolicy :=
      if config.failurePolicy ≠ "" then .ofText config.failurePolicy else q.failurePolicy }

def StreamQueue.configured (config : QueueConfig) (sq : StreamQueue) : StreamQueue :=
  if 0 < config.retentionMaxAge ∨ 0 < config.retentionMaxBytes then
    sq.setRetention (retentionAge config) config.retentionMaxBytes
  else sq

def initialConfig (name : String) (mode : QueueMode) : QueueConfig :=
  if mode = .stream then streamConfig else newConfig (Queue.new name)

namespace Storage

def loadedQueue (s : Storage) (entry : String × QueueConfig) : Queue :=
  { (Queue.new entry.1).configured entry.2 with
    messages := (s.loadMessages entry.1).map recovered }

def loadedStream (s : Storage) (entry : String × QueueConfig) : StreamQueue :=
  (StreamQueue.new entry.1 (.ok (s.getStreamSequence entry.1))).configured entry.2

def loadedQueue? (s : Storage) (entry : String × QueueConfig) : Option Queue :=
  if entry.2.mode = .stream then none else some (s.loadedQueue entry)

def loadedStream? (s : Storage) (entry : String × QueueConfig) : Option StreamQueue :=
  if entry.2.mode = .stream then some (s.loadedStream entry) else none

end Storage

namespace World

def load (w : World) (entry : String × QueueConfig) : World :=
  (if entry.2.mode = .stream then w.setStream (w.disk.storage.loadedStream entry)
    else w.setQueue (w.disk.storage.loadedQueue entry)).store
      (Storage.saveQueue entry.1 (initialConfig entry.1 entry.2.mode))

variable {s s' : Storage} {env : Message → Env} {entry : String × QueueConfig}

theorem setQueue_setQueue {q q' : Queue} (w : World) (h : q.name = q'.name) :
    (w.setQueue q).setQueue q' = w.setQueue q' := by
  simp only [setQueue, insert_insert _ h]

theorem store_setQueue (change : Storage → Storage) (q : Queue) (w : World) :
    (w.setQueue q).store change = (w.store change).setQueue q := rfl

theorem store_setStream (change : Storage → Storage) (sq : StreamQueue) (w : World) :
    (w.setStream sq).store change = (w.store change).setStream sq := rfl

theorem setStream_setStream {sq sq' : StreamQueue} (w : World) (h : sq.name = sq'.name) :
    (w.setStream sq).setStream sq' = w.setStream sq' := by
  simp only [setStream, insert_insert _ h]

end World

theorem setIf_returns {q : Queue} {given : Prop} [Decidable given] {setter : Queue → Queue}
    (hq : q.name = name) (hname : (setter q).name = q.name) :
    (setIf given (some name) setter).Returns (w.setQueue q) fun _ w' =>
      w' = w.setQueue (if given then setter q else q) := by
  subst hq
  unfold setIf
  split
  · exact (returns_lockedPure (World.queue?_setQueue_self q w)).mpr
      ⟨setter q, (), rfl, World.setQueue_setQueue w hname.symm⟩
  · rfl

theorem configure_returns {q : Queue} (config : QueueConfig) (hq : q.name = name) :
    (configure config (some name)).Returns (w.setQueue q) fun _ w' =>
      w' = w.setQueue (q.configured config) := by
  simp only [configure, returns_bind]
  refine (setIf_returns hq rfl).mono ?_
  rintro _ _ rfl
  refine (setIf_returns (by split <;> exact hq) rfl).mono ?_
  rintro _ _ rfl
  refine (setIf_returns (by split <;> split <;> exact hq) rfl).mono ?_
  rintro _ _ rfl
  congr 1
  unfold Queue.configured
  split_ifs <;> rfl

theorem Queue.enqueueDirect_unconsumed {q : Queue} (msg : Message) (env : Env)
    (hconsumers : q.consumers = []) (hgroups : q.groups.entries = []) :
    q.enqueueDirect msg env = .ok { q with messages := q.messages ++ [msg] } := by
  simp [enqueueDirect, tryDeliver, hconsumers, fanOut, forGroups, hgroups]

variable {env : Message → Env} {entry : String × QueueConfig}

theorem enqueueAll_returns {q : Queue} (messages : List Message)
    (hq : q.name = name) (hconsumers : q.consumers = []) (hgroups : q.groups = ∅) :
    (enqueueAll (some name) env messages).Returns (w.setQueue q) fun _ w' =>
      w' = w.setQueue { q with messages := q.messages ++ messages.map recovered } := by
  induction messages generalizing q with
  | nil =>
    rw [map_nil, append_nil]
    rfl
  | cons msg messages ih =>
    subst hq
    have hdirect := Queue.enqueueDirect_unconsumed (recovered msg) (env msg) hconsumers
      (congrArg KeyedMap.entries hgroups)
    simp only [enqueueAll, returns_bind]
    refine (returns_lockedPure (World.queue?_setQueue_self q w)).mpr
      ⟨{ q with messages := q.messages ++ [recovered msg] }, (), by rw [hdirect]; rfl, ?_⟩
    have hset : (w.setQueue q).setQueue { q with messages := q.messages ++ [recovered msg] } =
        w.setQueue { q with messages := q.messages ++ [recovered msg] } :=
      World.setQueue_setQueue w rfl
    have happend : q.messages ++ recovered msg :: messages.map recovered =
        q.messages ++ [recovered msg] ++ messages.map recovered := append_cons ..
    rw [hset, map_cons, happend]
    exact ih rfl hconsumers hgroups

theorem createStreamQueue_sound (hsound : w.disk.Sound) (hnew : w.stream? name = none) :
    createStreamQueue name w =
      (none, (w.setStream (.new name (.ok (w.disk.storage.getStreamSequence name)))).store
        (Storage.saveQueue name streamConfig)) := by
  rw [createStreamQueue_quiet hsound.faults hnew, if_pos hsound.present, Disk.stores,
    if_pos hsound.present]
  rfl

theorem loadStream_returns (config : QueueConfig) (hsound : w.disk.Sound)
    (hnew : w.stream? name = none) :
    (loadStream name config).Returns w fun _ w' =>
      w' = (w.setStream (w.disk.storage.loadedStream (name, config))).store
        (Storage.saveQueue name streamConfig) := by
  simp only [loadStream, returns_bind, returns_getOrCreateStreamQueue,
    createStreamQueue_sound hsound hnew, isSome_none, Bool.false_eq_true, if_false,
    World.store_setStream]
  have hsq := World.stream?_setStream_self (.new name (.ok (w.disk.storage.getStreamSequence name)))
    (w.store (Storage.saveQueue name streamConfig))
  unfold Storage.loadedStream StreamQueue.configured
  split
  · refine (returns_lockedStream hsq).mpr ?_
    exact World.setStream_setStream _ rfl
  · rfl

theorem loadQueue_returns
    (hsound : w.disk.Sound) (hqueue : w.queue? entry.1 = none) (hstream : w.stream? entry.1 = none) :
    (loadQueue env entry).Returns w fun err w' => err = none ∧ w' = w.load entry := by
  have ⟨name, config⟩ := entry
  unfold World.load initialConfig
  by_cases hmode : config.mode = .stream
  · simp only [loadQueue, hmode, if_true, returns_bind]
    exact (loadStream_returns config hsound hstream).mono fun _ w' h => ⟨rfl, h⟩
  · simp only [loadQueue, hmode, if_false, readMessages, readDisk, returns_bind, returns_step, returns_done,
      hsound.read_eq, returns_getOrCreateQueue, createQueue_sound hsound hqueue, isSome_none,
      Bool.false_eq_true, World.store_setQueue]
    refine (configure_returns (q := Queue.new name) config rfl).mono ?_
    rintro _ _ rfl
    refine (enqueueAll_returns (q := (Queue.new name).configured config) _ rfl rfl rfl).mono ?_
    rintro _ _ rfl
    exact ⟨rfl, rfl⟩

namespace World

theorem load_sound (entry : String × QueueConfig) (h : w.disk.Sound) : (w.load entry).disk.Sound := by
  unfold load
  split <;> exact ⟨h.present, h.faults⟩

theorem load_storage (entry : String × QueueConfig) (w : World) :
    (w.load entry).disk.storage =
      w.disk.storage.saveQueue entry.1 (initialConfig entry.1 entry.2.mode) := by
  unfold load
  split <;> rfl

theorem load_queue? (entry : String × QueueConfig) (w : World) (name : String) :
    (w.load entry).queue? name =
      if entry.1 = name then (w.disk.storage.loadedQueue? entry).or (w.queue? name)
      else w.queue? name := by
  unfold load Storage.loadedQueue?
  by_cases hmode : entry.2.mode = .stream
  · rw [if_pos hmode, if_pos hmode, none_or, ite_self]
    rfl
  · rw [if_neg hmode, if_neg hmode, queue?_store, some_or, queue?, setQueue,
      find?_insert]
    exact if_congr eq_comm rfl rfl

theorem load_stream? (entry : String × QueueConfig) (w : World) (name : String) :
    (w.load entry).stream? name =
      if entry.1 = name then (w.disk.storage.loadedStream? entry).or (w.stream? name)
      else w.stream? name := by
  unfold load Storage.loadedStream?
  by_cases hmode : entry.2.mode = .stream
  · have hname : (w.disk.storage.loadedStream entry).name = entry.1 := by
      unfold Storage.loadedStream StreamQueue.configured
      split <;> rfl
    rw [if_pos hmode, if_pos hmode, some_or, stream?, store, setStream,
      find?_insert, hname]
    exact if_congr eq_comm rfl rfl
  · rw [if_neg hmode, if_neg hmode, none_or, ite_self]
    rfl

end World

theorem loadQueues_returns {entries : List (String × QueueConfig)}
    (hsound : w.disk.Sound) (hnodup : (entries.map Prod.fst).Nodup)
    (hqueues : ∀ entry ∈ entries, w.queue? entry.1 = none)
    (hstreams : ∀ entry ∈ entries, w.stream? entry.1 = none) :
    (loadQueues env entries).Returns w fun err w' =>
      err = none ∧ w' = entries.foldl World.load w := by
  induction entries generalizing w with
  | nil => exact ⟨rfl, rfl⟩
  | cons entry entries ih =>
    rw [map_cons, nodup_cons] at hnodup
    have hother {later : String × QueueConfig} (hlater : later ∈ entries) : entry.1 ≠ later.1 :=
      fun heq => hnodup.1 (heq ▸ mem_map_of_mem hlater)
    simp only [loadQueues, returns_bind]
    refine (loadQueue_returns hsound (hqueues _ mem_cons_self)
      (hstreams _ mem_cons_self)).mono ?_
    rintro _ _ ⟨rfl, rfl⟩
    refine ih (World.load_sound entry hsound) hnodup.2 (fun later hlater => ?_) fun later hlater => ?_
    · rw [World.load_queue?, if_neg (hother hlater)]
      exact hqueues later (mem_cons_of_mem _ hlater)
    · rw [World.load_stream?, if_neg (hother hlater)]
      exact hstreams later (mem_cons_of_mem _ hlater)

/-- A storage in which nothing but configurations has been written since `s`. -/
def Reconfigured (s s' : Storage) : Prop := s' = { s with queues := s'.queues }

theorem Reconfigured.loadedQueue? (h : Reconfigured s s') :
    s'.loadedQueue? = s.loadedQueue? := by
  rw [h]
  rfl

theorem Reconfigured.loadedStream? (h : Reconfigured s s') :
    s'.loadedStream? = s.loadedStream? := by
  rw [h]
  rfl

theorem Reconfigured.load (entry : String × QueueConfig)
    (h : Reconfigured s w.disk.storage) : Reconfigured s (w.load entry).disk.storage := by
  rw [World.load_storage]
  unfold Reconfigured at h ⊢
  rw [h]
  rfl

structure Recovered (s : Storage) (w : World) : Prop where
  sound : w.disk.Sound
  contents : Reconfigured s w.disk.storage
  queues : ∀ name, w.queue? name = (s.queues.find? name).bind s.loadedQueue?
  streams : ∀ name, w.stream? name = (s.queues.find? name).bind s.loadedStream?
  configs : ∀ name, w.disk.storage.queues.find? name =
    (s.queues.find? name).map fun entry => (name, initialConfig name entry.2.mode)

theorem Recovered.queue_eq (h : Recovered s w)
    (hentry : s.queues.find? name = some entry) (hmode : entry.2.mode ≠ .stream) :
    w.queue? name = some (s.loadedQueue entry) := by
  rw [h.queues, hentry, bind_some, Storage.loadedQueue?, if_neg hmode]

theorem Recovered.pending {q : Queue} (h : Recovered s w)
    (hq : w.queue? name = some q) :
    q.inFlight = ∅ ∧ q.messages = (s.loadMessages name).map recovered := by
  rw [h.queues] at hq
  have ⟨entry, hentry, hload⟩ := bind_eq_some_iff.mp hq
  rw [Storage.loadedQueue?] at hload
  split at hload
  · cases hload
  · rw [← Option.some.inj hload, ← (find?_eq_some_iff.mp hentry).2]
    exact ⟨rfl, rfl⟩

theorem recovered_foldl (order : List String) (hsound : w.disk.Sound)
    (hqueues : ∀ name, w.queue? name = none) (hstreams : ∀ name, w.stream? name = none) :
    Recovered w.disk.storage ((w.disk.storage.queues.inOrder order).foldl World.load w) := by
  have hnodup := w.disk.storage.queues.inOrder_nodup order
  have hkeep (x : World) (entry : String × QueueConfig)
      (h : Reconfigured w.disk.storage x.disk.storage) :
      Reconfigured w.disk.storage (x.load entry).disk.storage := h.load entry
  have hself : Reconfigured w.disk.storage w.disk.storage := rfl
  refine ⟨?_, ?_, fun name => ?_, fun name => ?_, fun name => ?_⟩
  · exact List.foldlRecOn (motive := fun x => x.disk.Sound) _ World.load hsound
      fun _ h entry _ => World.load_sound entry h
  · exact List.foldlRecOn (motive := fun x => Reconfigured w.disk.storage x.disk.storage) _
      World.load hself fun x h entry _ => hkeep x entry h
  · rw [foldl_lookup World.load (World.queue? name) w.disk.storage.loadedQueue?
      (fun x => Reconfigured w.disk.storage x.disk.storage) hkeep
      (fun x entry h => h.loadedQueue? ▸ World.load_queue? entry x name) hnodup hself, hqueues,
      or_none, find?_inOrder]
  · rw [foldl_lookup World.load (World.stream? name) w.disk.storage.loadedStream?
      (fun x => Reconfigured w.disk.storage x.disk.storage) hkeep
      (fun x entry h => h.loadedStream? ▸ World.load_stream? entry x name) hnodup hself, hstreams,
      or_none, find?_inOrder]
  · have hstep (x : World) (entry : String × QueueConfig) (_ : True) :
        (x.load entry).disk.storage.queues.find? name = if entry.1 = name then
          (some (name, initialConfig name entry.2.mode)).or (x.disk.storage.queues.find? name)
        else x.disk.storage.queues.find? name := by
      rw [World.load_storage, Storage.saveQueue, find?_insert, some_or]
      refine if_ctx_congr eq_comm (fun h => ?_) fun _ => rfl
      rw [← h]
    rw [foldl_lookup World.load (fun x => x.disk.storage.queues.find? name)
      (fun entry => some (name, initialConfig name entry.2.mode)) (fun _ => True)
      (fun _ _ h => h) hstep hnodup trivial, find?_inOrder]
    cases w.disk.storage.queues.find? name <;> rfl

theorem loadFromStorage_recovers (order : List String) (env : Message → Env)
    (hsound : w.disk.Sound) (hqueues : ∀ name, w.queue? name = none)
    (hstreams : ∀ name, w.stream? name = none) :
    (loadFromStorage order env).Returns w fun err w' =>
      err = none ∧ Recovered w.disk.storage w' := by
  have hnodup := w.disk.storage.queues.inOrder_nodup order
  simp only [loadFromStorage, readQueues, readDisk, returns_bind, returns_look, hsound.present, Bool.not_true,
    Bool.false_eq_true, if_false, returns_step, returns_done, hsound.read_eq]
  refine (loadQueues_returns hsound hnodup (fun _ _ => hqueues _) fun _ _ => hstreams _).mono ?_
  rintro _ _ ⟨rfl, rfl⟩
  exact ⟨rfl, recovered_foldl order hsound hqueues hstreams⟩

def World.restarted (memoryLimit : UInt64) (w : World) : World := ⟨Broker.new memoryLimit, w.disk⟩

theorem restarted_recovers (memoryLimit : UInt64) (order : List String) (env : Message → Env)
    (hsound : w.disk.Sound) :
    ∃ w', (loadFromStorage order env).run (w.restarted memoryLimit) = (.ok none, w') ∧
      Recovered w.disk.storage w' := by
  have hopened : (w.restarted memoryLimit).disk.Sound := hsound
  have ⟨_, w', hrun, hnone, hrecovered⟩ := returns_iff.mp
    (loadFromStorage_recovers order env hopened (fun _ => rfl) fun _ => rfl)
  exact ⟨w', hnone ▸ hrun, hrecovered⟩

end QwerQ
