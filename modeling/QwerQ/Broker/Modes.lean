import QwerQ.Broker.Load
import QwerQ.Queue.Registry
import QwerQ.Server

/-! A name's mode. Queues and streams are kept in two maps and configured under one
key of the storage; either kind of request creates its own kind, whatever the name
stands for already. As long as every request uses a name for what it is, the maps
and the configurations agree. -/
namespace QwerQ
open Process KeyedMap
variable {w w' : World} {name : String}

/-- The name is a queue's or a stream's, and its configuration says which; messages
are stored only for a queue. -/
structure ModeAt (name : String) (w : World) : Prop where
  disjoint : w.queue? name = none ∨ w.stream? name = none
  queueMode : (w.queue? name).isSome →
    ∃ config, w.disk.storage.queues.find? name = some (name, config) ∧ config.mode ≠ .stream
  streamMode : (w.stream? name).isSome →
    ∃ config, w.disk.storage.queues.find? name = some (name, config) ∧ config.mode = .stream
  records : ∀ msg ∈ w.disk.storage.messages.entries, msg.queue = name → (w.queue? name).isSome

structure OneMode (w : World) : Prop where
  present : w.disk.present = true
  modes : ∀ name, ModeAt name w

variable {ptr : Option String} {req : PublishRequest} {env : PublishEnv} {state : ConnState}

theorem ModeAt.congr (h : ModeAt name w) (hqueue : (w'.queue? name).isSome = (w.queue? name).isSome)
    (hstream : (w'.stream? name).isSome = (w.stream? name).isSome)
    (hconfig : w'.disk.storage.queues.find? name = w.disk.storage.queues.find? name)
    (hrecords : ∀ msg ∈ w'.disk.storage.messages.entries, msg.queue = name →
      msg ∈ w.disk.storage.messages.entries ∨ (w.queue? name).isSome) : ModeAt name w' where
  disjoint := by
    have hdisjoint := h.disjoint
    rw [← Option.not_isSome_iff_eq_none, ← Option.not_isSome_iff_eq_none] at hdisjoint ⊢
    rwa [hqueue, hstream]
  queueMode hsome := hconfig ▸ h.queueMode (hqueue ▸ hsome)
  streamMode hsome := hconfig ▸ h.streamMode (hstream ▸ hsome)
  records msg hmsg hname := by
    rw [hqueue]
    exact (hrecords msg hmsg hname).elim (fun hold => h.records msg hold hname) id

/-- Nothing is created; a message is stored only for a queue that is there. -/
structure SameModes (w w' : World) : Prop where
  present : w'.disk.present = w.disk.present
  queues : ∀ name, (w'.queue? name).isSome = (w.queue? name).isSome
  streams : ∀ name, (w'.stream? name).isSome = (w.stream? name).isSome
  configs : w'.disk.storage.queues = w.disk.storage.queues
  records : ∀ msg ∈ w'.disk.storage.messages.entries,
    msg ∈ w.disk.storage.messages.entries ∨ (w.queue? msg.queue).isSome

theorem SameModes.trans {w'' : World} (h : SameModes w w') (hnext : SameModes w' w'') :
    SameModes w w'' where
  present := hnext.present.trans h.present
  queues name := (hnext.queues name).trans (h.queues name)
  streams name := (hnext.streams name).trans (h.streams name)
  configs := hnext.configs.trans h.configs
  records msg hmsg := by
    rcases hnext.records msg hmsg with hold | hqueue
    · exact h.records msg hold
    · exact .inr (h.queues _ ▸ hqueue)

theorem OneMode.of_same (h : OneMode w) (hsame : SameModes w w') : OneMode w' where
  present := hsame.present.trans h.present
  modes name := by
    refine (h.modes name).congr (hsame.queues name) (hsame.streams name) (by rw [hsame.configs]) ?_
    intro msg hmsg hname
    exact hname ▸ hsame.records msg hmsg

theorem SameModes.of_storage {disk : Disk} (hpresent : disk.present = w.disk.present)
    (hqueues : disk.storage.queues = w.disk.storage.queues)
    (hmessages : ∀ msg ∈ disk.storage.messages.entries,
      msg ∈ w.disk.storage.messages.entries ∨ (w.queue? msg.queue).isSome) :
    SameModes w { w with disk := disk } :=
  ⟨hpresent, fun _ => rfl, fun _ => rfl, hqueues, hmessages⟩

theorem sameModes_broker {broker : Broker} (hqueues : broker.queues = w.broker.queues)
    (hstreams : broker.streamQueues = w.broker.streamQueues) :
    SameModes w { w with broker := broker } where
  present := rfl
  queues name := by rw [World.queue?, hqueues, World.queue?]
  streams name := by rw [World.stream?, hstreams, World.stream?]
  configs := rfl
  records _ hmsg := .inl hmsg

theorem sameModes_setQueue {q q' : Queue} (hq : w.queue? name = some q) (hname : q'.name = q.name) :
    SameModes w (w.setQueue q') where
  present := rfl
  queues other := by
    by_cases hother : other = q'.name
    · rw [hother, World.queue?_setQueue_self, hname, World.queue?_name hq, hq]
      rfl
    · rw [World.queue?_setQueue_of_ne w hother]
  streams _ := rfl
  configs := rfl
  records _ hmsg := .inl hmsg

theorem sameModes_setStream {sq sq' : StreamQueue} (hsq : w.stream? name = some sq)
    (hname : sq'.name = sq.name) : SameModes w (w.setStream sq') where
  present := rfl
  queues _ := rfl
  streams other := by
    have hself : sq.name = name := (find?_eq_some_iff.mp hsq).2
    rw [World.stream?, World.setStream, find?_insert]
    split
    · rename_i hother
      rw [hother, hname, hself, hsq]
      rfl
    · rfl
  configs := rfl
  records _ hmsg := .inl hmsg

theorem Disk.write_cases (change : Storage → Storage) (d : Disk) :
    (d.write change).2.storage = d.storage ∨ (d.write change).2.storage = change d.storage := by
  unfold Disk.write
  split
  · split
    · exact .inl rfl
    · exact .inr rfl
  · exact .inl rfl

theorem Disk.write_present_eq (change : Storage → Storage) (d : Disk) :
    (d.write change).2.present = d.present := by
  unfold Disk.write
  split
  · split <;> rfl
  · rfl

theorem sameModes_write {change : Storage → Storage}
    (hqueues : ∀ s : Storage, (change s).queues = s.queues)
    (hmessages : ∀ msg ∈ (change w.disk.storage).messages.entries,
      msg ∈ w.disk.storage.messages.entries ∨ (w.queue? msg.queue).isSome) :
    SameModes w { w with disk := (w.disk.write change).2 } := by
  refine .of_storage (Disk.write_present_eq change _) ?_ ?_
  · rcases Disk.write_cases change w.disk with h | h
    · rw [h]
    · rw [h, hqueues]
  · rcases Disk.write_cases change w.disk with h | h
    · rw [h]
      exact fun msg hmsg => .inl hmsg
    · rw [h]
      exact hmessages

theorem sameModes_checkKey (key : String) (now : Time) :
    SameModes w { w with broker := (w.broker.checkKey key now).2 } := by
  refine sameModes_broker ?_ ?_ <;> unfold Broker.checkKey <;> split <;> rfl

theorem OneMode.of_others (h : OneMode w) (hpresent : w'.disk.present = true)
    (hqueues : ∀ other, other ≠ name → w'.queue? other = w.queue? other)
    (hstreams : ∀ other, other ≠ name → w'.stream? other = w.stream? other)
    (hconfigs : ∀ other, other ≠ name →
      w'.disk.storage.queues.find? other = w.disk.storage.queues.find? other)
    (hmessages : w'.disk.storage.messages = w.disk.storage.messages) (hname : ModeAt name w') :
    OneMode w' where
  present := hpresent
  modes other := by
    by_cases hother : other = name
    · exact hother ▸ hname
    · refine (h.modes other).congr (by rw [hqueues other hother]) (by rw [hstreams other hother])
        (hconfigs other hother) fun msg hmsg _ => .inl (hmessages ▸ hmsg)

theorem OneMode.createQueue (h : OneMode w) (hstream : w.stream? name = none) :
    OneMode (createQueue name w).2 ∧
      ((createQueue name w).1 = none → ((createQueue name w).2.queue? name).isSome) := by
  cases hq : w.queue? name with
  | some q =>
    simp only [QwerQ.createQueue, hq]
    exact ⟨h, fun _ => rfl⟩
  | none =>
    cases hfault : w.disk.faults 0 with
    | some text =>
      rw [createQueue_failed h.present hq hfault]
      exact ⟨h.of_same (.of_storage rfl rfl fun _ hmsg => .inl hmsg), fun hnone => by cases hnone⟩
    | none =>
      simp only [QwerQ.createQueue, hq, Disk.write_succeeded h.present hfault]
      have hself : (w.setQueue (Queue.new name)).queue? name = some (Queue.new name) :=
        World.queue?_setQueue_self (Queue.new name) w
      refine ⟨h.of_others h.present (fun other hother => World.queue?_setQueue_of_ne w hother)
        (fun _ _ => rfl) (fun other hother => find?_insert_of_ne _ hother) rfl ?_, fun _ => ?_⟩
      · refine ⟨.inr hstream, fun _ => ⟨_, find?_insert_self _ _, fun hmode => by cases hmode⟩,
          fun hsome => ?_, fun _ _ _ => ?_⟩
        · have hnone : (w.stream? name).isSome = true := hsome
          rw [hstream] at hnone
          cases hnone
        · exact Option.isSome_of_eq_some hself
      · exact Option.isSome_of_eq_some hself

theorem OneMode.createStreamQueue (h : OneMode w) (hqueue : w.queue? name = none) :
    OneMode (createStreamQueue name w).2 := by
  cases hsq : w.stream? name with
  | some sq =>
    simp only [QwerQ.createStreamQueue, hsq]
    exact h
  | none =>
    rcases createStreamQueue_cases h.present hsq with
      ⟨err, disk, hcreate, hpresent, hstorage⟩ | ⟨seq, disk, hcreate, hpresent, hstorage⟩
    · rw [hcreate]
      exact h.of_same (.of_storage (hpresent.trans h.present.symm) (by rw [hstorage])
        fun _ hmsg => .inl (hstorage ▸ hmsg))
    · rw [hcreate]
      refine h.of_others hpresent (fun _ _ => rfl)
        (fun other hother => find?_insert_of_ne _ hother) ?_ (by rw [hstorage]; rfl) ?_
      · intro other hother
        rw [hstorage]
        exact find?_insert_of_ne _ hother
      · refine ⟨.inl hqueue, fun hsome => ?_, fun _ => ⟨streamConfig, ?_, rfl⟩, fun msg hmsg hname => ?_⟩
        · have hnone : (w.queue? name).isSome = true := hsome
          rw [hqueue] at hnone
          cases hnone
        · rw [hstorage]
          exact find?_insert_self _ (name, streamConfig)
        · rw [hstorage] at hmsg
          exact (h.modes name).records msg hmsg hname

theorem locked_sameModes {label : Queue → Label} {body : Queue → Go (Queue × α)}
    (hname : ∀ {q q' result}, body q = .ok (q', result) → q'.name = q.name) :
    (lockedPure ptr label body).Ensures w fun _ w' => SameModes w w' := by
  rw [ensures_lockedPure]
  intro name q q' result _ hq hbody
  exact sameModes_setQueue hq (hname hbody)

theorem lockedStream_sameModes
    {body : StreamQueue → Disk → (StreamQueue × Disk) × α}
    (hname : ∀ sq disk, (body sq disk).1.1.name = sq.name)
    (hdisk : ∀ sq, SameModes w { w with disk := (body sq w.disk).1.2 }) :
    (lockedStream ptr body).Ensures w fun _ w' => SameModes w w' := by
  rw [ensures_lockedStream]
  intro name sq _ hsq
  have hset := sameModes_setStream hsq (hname sq w.disk)
  have hwrite := hdisk sq
  exact ⟨hwrite.present, hset.queues, hset.streams, hwrite.configs, hwrite.records⟩

theorem saveAndEnqueue_sameModes {msg : Message} {env : Env} (hq : (w.queue? msg.queue).isSome) :
    (saveAndEnqueue (some msg.queue) msg env).Ensures w fun _ w' => SameModes w w' := by
  have hsave : SameModes w { w with disk := (w.disk.write (Storage.saveMessage msg)).2 } := by
    refine sameModes_write (fun _ => rfl) fun other hother => ?_
    rcases mem_entries_insert.mp hother with ⟨hold, _⟩ | rfl
    · exact .inl hold
    · exact .inr hq
  simp only [saveAndEnqueue, saveMessage, deleteMessage, enqueue, ensures_bind, ensures_write]
  split
  · exact hsave
  simp only [ensures_bind]
  refine (locked_sameModes Queue.enqueue_name).mono fun err next hnext => ?_
  split
  · exact hsave.trans hnext
  simp only [ensures_bind, ensures_write]
  have hdelete : SameModes next { next with
      disk := (next.disk.write (Storage.deleteMessage msg.queue msg.id)).2 } :=
    sameModes_write (fun _ => rfl) fun other hother => .inl (List.mem_of_mem_filter hother)
  split <;> exact (hsave.trans hnext).trans hdelete

theorem handlePublish_oneMode (h : OneMode w)
    (hstream : w.stream? req.queue = none) :
    (handlePublish req env).Ensures w fun _ w' => OneMode w' := by
  have hchecked : OneMode (w.keyed req env) :=
    h.of_same (sameModes_checkKey req.idempotencyKey env.checked)
  have ⟨hcreated, hqueue⟩ := hchecked.createQueue ((w.stream?_keyed req.queue).trans hstream)
  refine ensures_handlePublish env (fun _ _ => h) (fun _ _ => hcreated) fun _ hnone => ?_
  exact (saveAndEnqueue_sameModes (hqueue hnone)).mono fun _ _ hsame => hcreated.of_same hsame

theorem handleStreamPublish_oneMode (h : OneMode w)
    (hqueue : w.queue? req.queue = none) :
    (handleStreamPublish req env).Ensures w fun _ w' => OneMode w' := by
  have hchecked := h.of_same (sameModes_checkKey req.idempotencyKey env.checked)
  simp only [handleStreamPublish, memoryCheck, dedupCheck, ensures_bind, ensures_look]
  split
  · exact h
  simp only [ensures_bind, ensures_step, ensures_done]
  split
  · exact hchecked
  simp only [ensures_bind, ensures_getOrCreateStreamQueueWithError]
  have hqueue' := (queue?_checkKey req.idempotencyKey env.checked req.queue w).trans hqueue
  have hcreated := hchecked.createStreamQueue hqueue'
  split
  · exact hcreated
  simp only [ensures_bind]
  refine (lockedStream_sameModes (fun sq disk => StreamQueue.publish_name _ sq disk) ?_).mono
    fun result w' hsame => ?_
  · intro sq
    rw [StreamQueue.publish_disk]
    exact sameModes_write (fun _ => rfl) fun _ hmsg => .inl hmsg
  · split <;> exact hcreated.of_same hsame

theorem lockedGroup_sameModes {groupName : String}
    {label : Queue → Disk → Label}
    {body : Queue → ConsumerGroup → Disk → Go ((ConsumerGroup × Disk) × α)}
    (hdisk : ∀ {q g g' disk disk' value}, body q g disk = .ok ((g', disk'), value) → disk' = disk) :
    (lockedGroup ptr groupName label body).Ensures w fun _ w' => SameModes w w' := by
  rw [lockedGroup, ensures_locked]
  intro name q q' disk result _ hq hbody
  rcases Queue.inGroup_cases hbody with ⟨_, rfl, rfl, _⟩ | ⟨_, _, _, _, hok, rfl, _⟩
  · exact sameModes_setQueue hq rfl
  · rw [hdisk hok]
    exact sameModes_setQueue hq rfl

theorem handleConsume_oneMode {req : ConsumeRequest} {now : Time} {pass : Pass}
    (h : OneMode w) (hstream : w.stream? req.queue = none) :
    (Server.handleConsume req now pass state).Ensures w fun _ w' => OneMode w' := by
  obtain ⟨hcreated, _⟩ := h.createQueue hstream
  simp only [Server.handleConsume, handleConsume, ensures_bind, ensures_getOrCreateQueue]
  split
  · refine (locked_sameModes ?_).mono fun _ w' hsame => hcreated.of_same hsame
    intro q q' result hdequeue
    simp only [Go.bind_eq_ok, Go.pure_eq] at hdequeue
    obtain ⟨_, hok, hret⟩ := hdequeue
    cases hret
    exact (Queue.dequeue_joins hok).2.1
  · simp only [ensures_bind]
    refine (locked_sameModes ?_).mono fun _ next hnext => ?_
    · intro q q' result hgroup
      cases hgroup
      unfold Queue.getOrCreateGroup
      split <;> rfl
    · refine (lockedGroup_sameModes ?_).mono fun _ w' hsame => (hcreated.of_same hnext).of_same hsame
      intro q g g' disk disk' value hadd
      simp only [Go.bind_eq_ok, Go.pure_eq] at hadd
      obtain ⟨_, _, hret⟩ := hadd
      cases hret
      rfl

theorem sameModes_refl (w : World) : SameModes w w :=
  ⟨rfl, fun _ => rfl, fun _ => rfl, rfl, fun _ hmsg => .inl hmsg⟩

theorem streamSection_sameModes (body : StreamQueue → StreamQueue × α)
    (hname : ∀ sq, (body sq).1.name = sq.name) :
    (lockedStream ptr fun sq disk => (((body sq).1, disk), (body sq).2)).Ensures w
      fun _ w' => SameModes w w' :=
  lockedStream_sameModes (fun sq _ => hname sq) fun _ => sameModes_refl w

theorem Consulted.sameModes (h : Consulted w w') : SameModes w w' where
  present := h.present
  queues name := by rw [World.queue?, h.queues, World.queue?]
  streams name := by rw [h.streams]
  configs := by rw [h.storage]
  records msg hmsg := .inl (h.storage ▸ hmsg)

theorem seekStream_sameModes (req : SeekRequest) (group : String) (state : ConnState) :
    (Server.seekStream req group state).Ensures w fun _ w' => SameModes w w' := by
  simp only [Server.seekStream, ensures_bind]
  refine (seekOffset_consults req group).mono fun result next hconsulted => ?_
  have hnext := hconsulted.sameModes
  split
  · exact hnext
  simp only [ensures_bind]
  have hdrop : (Server.dropConsumer req.queue state.streamConsumer).Ensures next
      fun _ w' => SameModes next w' := by
    unfold Server.dropConsumer
    split
    · exact sameModes_refl next
    · rename_i stream ch _
      refine streamSection_sameModes
        (fun sq => (if stream = req.queue then sq.removeConsumer ch else sq, ())) fun sq => ?_
      dsimp only
      split <;> rfl
  refine hdrop.mono fun _ dropped hdropped => ?_
  exact (streamSection_sameModes _ fun _ => rfl).mono fun _ w' hsame => (hnext.trans hdropped).trans hsame

theorem handleSeek_oneMode {req : SeekRequest} (h : OneMode w)
    (hqueue : w.queue? req.queue = none) :
    (Server.handleSeek req state).Ensures w fun _ w' => OneMode w' := by
  have hcreated := h.createStreamQueue hqueue
  simp only [Server.handleSeek, ensures_bind, ensures_getOrCreateStreamQueue]
  split
  · trivial
  · exact (seekStream_sameModes _ _ _).mono fun _ w' hsame => hcreated.of_same hsame

def World.reopened (memoryLimit : UInt64) (w : World) : World :=
  ⟨Broker.new memoryLimit, { w.disk with faults := fun _ => none }⟩

inductive ModeRequest where
  | publish (req : PublishRequest) (env : PublishEnv)
  | streamPublish (req : PublishRequest) (env : PublishEnv)
  | consume (req : ConsumeRequest) (now : Time) (pass : Pass) (state : ConnState)
  | seek (req : SeekRequest) (state : ConnState)

namespace ModeRequest

def program : ModeRequest → Prog Unit
  | .publish req env => do let _ ← handlePublish req env
  | .streamPublish req env => do let _ ← handleStreamPublish req env
  | .consume req now pass state => do let _ ← Server.handleConsume req now pass state
  | .seek req state => do let _ ← Server.handleSeek req state

/-- The request does not use a stream's name for a queue, or a queue's for a stream. -/
def Apart (w : World) : ModeRequest → Prop
  | .publish req _ => w.stream? req.queue = none
  | .streamPublish req _ => w.queue? req.queue = none
  | .consume req _ _ _ => w.stream? req.queue = none
  | .seek req _ => w.queue? req.queue = none

inductive Step (guard : World → ModeRequest → Prop) :
    List ModeRequest → World → List ModeRequest → World → Prop where
  | handle {history : List ModeRequest} {w w' : World} (request : ModeRequest) : guard w request →
      request.program.run w = (.ok (), w') → Step guard history w [request] w'

abbrev Runs (guard : World → ModeRequest → Prop) := Run (Step guard)

theorem program_oneMode {request : ModeRequest} (h : OneMode w) (hapart : request.Apart w) :
    request.program.Ensures w fun _ w' => OneMode w' := by
  cases request with
  | publish req env => exact ensures_bind.mpr (handlePublish_oneMode h hapart)
  | streamPublish req env => exact ensures_bind.mpr (handleStreamPublish_oneMode h hapart)
  | consume req now pass state => exact ensures_bind.mpr (handleConsume_oneMode h hapart)
  | seek req state => exact ensures_bind.mpr (handleSeek_oneMode h hapart)

theorem oneMode_opened (memoryLimit : UInt64) (faults : Nat → Option String) :
    OneMode (World.opened memoryLimit faults) where
  present := rfl
  modes _ :=
    { disjoint := .inl rfl
      queueMode := fun hsome => by cases hsome
      streamMode := fun hsome => by cases hsome
      records := fun _ hmsg => by cases hmsg }

variable {requests : List ModeRequest}

theorem Runs.oneMode {memoryLimit : UInt64} {faults : Nat → Option String}
    (run : Runs (fun w request => request.Apart w)
      (World.opened memoryLimit faults) requests w) : OneMode w :=
  run.invariant (fun _ w => OneMode w) (oneMode_opened memoryLimit faults) fun h step => by
    cases step with
    | handle request hapart hrun => exact ensures_iff.mp (program_oneMode h hapart) _ _ hrun

end ModeRequest

theorem OneMode.reloads (h : OneMode w) (memoryLimit : UInt64) (order : List String)
    (env : Message → Env) :
    (loadFromStorage order env).Returns (w.reopened memoryLimit) fun err w' => err = none ∧
      ∀ name msg, msg ∈ w.disk.storage.stored name →
        ∃ q, w'.queue? name = some q ∧ recovered msg ∈ q.messages := by
  have hsound : (w.reopened memoryLimit).disk.Sound := ⟨h.present, rfl⟩
  refine (loadFromStorage_recovers order env hsound (fun _ => rfl) fun _ => rfl).mono ?_
  rintro err w' ⟨hnone, hrecovered⟩
  refine ⟨hnone, fun name msg hmsg => ?_⟩
  have ⟨hmem, hname⟩ := List.mem_filter.mp hmsg
  have hqueue := (h.modes name).records msg hmem (by simpa using hname)
  have ⟨config, hconfig, hmode⟩ := (h.modes name).queueMode hqueue
  refine ⟨_, hrecovered.queue_eq hconfig hmode, ?_⟩
  exact List.mem_map_of_mem ((List.perm_insertionSort _ _).mem_iff.mpr hmsg)

/-- After every run in which each request uses its name for what it is, each name is
a queue's or a stream's, its configuration says which, and recovery in a new broker
makes every stored message pending again. -/
theorem name_has_one_mode {memoryLimit : UInt64} {faults : Nat → Option String}
    {requests : List ModeRequest} (run : ModeRequest.Runs (fun w request => request.Apart w)
      (World.opened memoryLimit faults) requests w) :
    (∀ name, ModeAt name w) ∧
      ∀ memoryLimit order env, ∃ w',
        (loadFromStorage order env).run (w.reopened memoryLimit) = (.ok none, w') ∧
        ∀ name msg, msg ∈ w.disk.storage.stored name →
          ∃ q, w'.queue? name = some q ∧ recovered msg ∈ q.messages := by
  have h := run.oneMode
  refine ⟨h.modes, fun memoryLimit order env => ?_⟩
  have ⟨err, w', hrun, hnone, hmessages⟩ := returns_iff.mp (h.reloads memoryLimit order env)
  rw [hnone] at hrun
  exact ⟨w', hrun, hmessages⟩

namespace ModeRequest

def publishOrder : ModeRequest :=
  .publish ⟨"orders", [1], ∅, "", "", ""⟩ ⟨0, 0, "a", 0, ⟨⟨0, []⟩, fun _ => ⟨0, []⟩⟩⟩

def appendEvent : ModeRequest :=
  .streamPublish ⟨"events", [2], ∅, "", "", ""⟩ ⟨0, 0, "b", 0, ⟨⟨0, []⟩, fun _ => ⟨0, []⟩⟩⟩

def seekOrders : ModeRequest := .seek ⟨"orders", "", .beginning, 0, 0⟩ (.new "client")

def play (requests : List ModeRequest) (w : World) : World :=
  requests.foldl (fun w request => (request.program.run w).2) w

variable {requests : List ModeRequest}

theorem Runs.then {guard : World → ModeRequest → Prop} {start : World}
    (run : Runs guard start requests w) (request : ModeRequest) (hguard : guard w request)
    (hok : (request.program.run w).1 = .ok ()) :
    Runs guard start (requests ++ [request]) (request.program.run w).2 :=
  run.next (.handle request hguard (Prod.ext hok rfl))

theorem publishOrder_runs (guard : World → ModeRequest → Prop)
    (hguard : guard (World.opened 0 fun _ => none) publishOrder) :
    Runs guard (World.opened 0 fun _ => none) [publishOrder]
      (play [publishOrder] (World.opened 0 fun _ => none)) :=
  Runs.then .start publishOrder hguard rfl

end ModeRequest
open ModeRequest

/-- A queue and a stream side by side. -/
theorem name_has_one_mode_side_by_side :
    ((play [publishOrder, appendEvent] (World.opened 0 fun _ => none)).queue? "orders").isSome ∧
      ((play [publishOrder, appendEvent] (World.opened 0 fun _ => none)).stream? "events").isSome ∧
      ModeAt "orders" (play [publishOrder, appendEvent] (World.opened 0 fun _ => none)) :=
  ⟨by decide, by decide,
    (name_has_one_mode ((publishOrder_runs _ rfl).then appendEvent rfl rfl)).1 "orders"⟩

/-- A seek on a queue's name makes it a stream's as well: the stored message is not
recovered. -/
theorem seek_makes_second_mode :
    ∃ requests w, Runs (fun _ _ => True) (World.opened 0 fun _ => none) requests w ∧
      (w.queue? "orders").isSome ∧ (w.stream? "orders").isSome ∧
      (w.disk.storage.queues.find? "orders").map (fun entry => entry.2.mode) = some .stream ∧
      (w.disk.storage.stored "orders").map Message.id = ["a"] ∧
      ((loadFromStorage [] fun _ => ⟨⟨0, []⟩, fun _ => ⟨0, []⟩⟩).run (w.reopened 0)).2.queue?
        "orders" = none :=
  ⟨_, _, (publishOrder_runs _ trivial).then seekOrders trivial rfl, by decide, by decide, by decide,
    by decide, by decide⟩

end QwerQ
