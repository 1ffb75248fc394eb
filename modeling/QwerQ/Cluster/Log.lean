import QwerQ.Cluster.Node
import QwerQ.Broker.Durability

/-! What a node holds comes from its log: every id pending or in flight and every
record is of a publish of the log to that queue, and every configuration is one that
creating a queue or a stream stores. -/
namespace QwerQ
open List Process
variable {w w' : World} {log : List Command} {held held' : Holdings} {answer : FSMResponse}
  {name queue : String}

def Command.message? (name : String) : Command → Option Message
  | .publish cmd =>
      if cmd.stream = false ∧ cmd.queue = name then some (FSM.publishedMessage cmd) else none
  | _ => none

def published (name : String) (log : List Command) : List Message :=
  log.filterMap (Command.message? name)

structure Storage.Logged (log : List Command) (s : Storage) : Prop where
  records : ∀ msg ∈ s.messages.entries, msg.id ∈ (published msg.queue log).map Message.id
  configs : ∀ entry ∈ s.queues.entries,
    entry.2 = newConfig (Queue.new entry.1) ∨ entry.2 = streamConfig

namespace Storage.Logged
variable {s : Storage}

theorem saveQueue {config : QueueConfig} (h : s.Logged log) (name : String)
    (hconfig : config = newConfig (Queue.new name) ∨ config = streamConfig) :
    (s.saveQueue name config).Logged log := by
  refine ⟨h.records, fun entry hentry => ?_⟩
  rcases KeyedMap.mem_entries_insert.mp hentry with ⟨hentry, _⟩ | rfl
  · exact h.configs entry hentry
  · exact hconfig

theorem saveMessage {msg : Message} (h : s.Logged log)
    (hmsg : msg.id ∈ (published msg.queue log).map Message.id) : (s.saveMessage msg).Logged log := by
  refine ⟨fun other hother => ?_, h.configs⟩
  rcases KeyedMap.mem_entries_insert.mp hother with ⟨hother, _⟩ | rfl
  · exact h.records other hother
  · exact hmsg

theorem deleteMessage (h : s.Logged log) (queue messageID : String) :
    (s.deleteMessage queue messageID).Logged log :=
  ⟨fun msg hmsg => h.records msg (mem_of_mem_filter hmsg), h.configs⟩

theorem snoc (h : s.Logged log) (cmd : Command) : s.Logged (log ++ [cmd]) := by
  refine ⟨fun msg hmsg => ?_, h.configs⟩
  rw [published, filterMap_append, map_append]
  exact mem_append_left _ (h.records msg hmsg)

end Storage.Logged

section Apply

theorem createQueue_logged (h : w.disk.storage.Logged log) (name : String) :
    (createQueue name w).2.disk.storage.Logged log := by
  have hwrite := Disk.write_keeps (Storage.saveQueue name (newConfig (Queue.new name))) h
    (h.saveQueue name (.inl rfl))
  unfold createQueue
  split
  · exact h
  · split
    all_goals
      rename_i heq
      rw [heq] at hwrite
      exact hwrite

theorem createStreamQueue_logged (h : w.disk.storage.Logged log) (name : String) :
    (createStreamQueue name w).2.disk.storage.Logged log := by
  have hread : (if w.disk.present then w.disk.read (Storage.getStreamSequence name)
      else (.ok 0, w.disk) : Except Err UInt64 × Disk).2.storage = w.disk.storage := by
    split
    · unfold Disk.read
      split <;> rfl
    · rfl
  unfold createStreamQueue
  split
  · exact h
  · rw [← hread] at h
    have hwrite := Disk.write_keeps (Storage.saveQueue name streamConfig) h
      (h.saveQueue name (.inr rfl))
    simp only
    split
    all_goals
      rename_i heq
      rw [heq] at hwrite
      exact hwrite

theorem applyStreamPublish_logged (cmd : PublishCommand) (h : w.disk.storage.Logged log) :
    (FSM.applyStreamPublish cmd).Ensures w fun _ w' => w'.disk.storage.Logged log := by
  simp only [FSM.applyStreamPublish, ensures_bind, ensures_getOrCreateStreamQueue,
    ensures_lockedStream]
  have hcreated := createStreamQueue_logged h cmd.queue
  intro name sq _ _
  have hpublished : ((sq.publish (FSM.publishedMessage cmd)
      (createStreamQueue cmd.queue w).2.disk).1.2.storage).Logged log := by
    rw [StreamQueue.publish_disk]
    exact Disk.write_keeps _ hcreated ⟨hcreated.records, hcreated.configs⟩
  split <;> exact hpublished

theorem applyQueuePublish_logged {cmd : PublishCommand} (hqueue : cmd.stream = false)
    (hcmd : .publish cmd ∈ log) (env : Env) (h : w.disk.storage.Logged log) :
    (FSM.applyQueuePublish cmd env).Ensures w fun _ w' => w'.disk.storage.Logged log := by
  simp only [FSM.applyQueuePublish, ensures_bind, ensures_getOrCreateQueue, ensures_lockedPure]
  have hcreated := createQueue_logged h cmd.queue
  intro name q _ _ _ _ hok
  simp only [Go.bind_eq_ok, Go.pure_eq] at hok
  obtain ⟨⟨q', err⟩, henqueue, hret⟩ := hok
  cases hret
  rcases Queue.enqueue_cases henqueue with ⟨_, _, rfl⟩ | ⟨_, rfl, hdirect⟩
  · exact hcreated
  · have hbody : (asEnqueued (FSM.publishedMessage cmd) q' none).body =
        (FSM.publishedMessage cmd).body := asEnqueued_body (Queue.enqueueDirect_carries hdirect)
    have hid : (asEnqueued (FSM.publishedMessage cmd) q' none).id = cmd.messageID :=
      congrArg Body.id hbody
    have hname : (asEnqueued (FSM.publishedMessage cmd) q' none).queue = cmd.queue :=
      congrArg Body.queue hbody
    have hmsg : FSM.publishedMessage cmd ∈ published cmd.queue log := by
      refine mem_filterMap.mpr ⟨_, hcmd, ?_⟩
      rw [Command.message?, if_pos ⟨hqueue, rfl⟩]
    refine Disk.write_keeps _ hcreated (hcreated.saveMessage ?_)
    rw [hid, hname]
    exact mem_map_of_mem hmsg

theorem applyAck_logged (queue messageID : String) (pass : Pass) (h : w.disk.storage.Logged log) :
    (FSM.applyAck queue messageID pass).Ensures w fun _ w' => w'.disk.storage.Logged log := by
  simp only [FSM.applyAck, ensures_bind, ensures_getQueue]
  split
  · exact h
  · simp only [ensures_bind, ensures_lockedPure]
    intro name q q' _ _ _ _
    exact Disk.write_keeps _ h (h.deleteMessage queue messageID)

theorem applyNack_logged (queue messageID : String) (requeue : Bool) (now : Time) (pass : Pass)
    (h : w.disk.storage.Logged log) :
    (FSM.applyNack queue messageID requeue now pass).Ensures w fun _ w' =>
      w'.disk.storage.Logged log := by
  simp only [FSM.applyNack, ensures_bind, ensures_getQueue]
  split
  · exact h
  · simp only [ensures_bind, ensures_lockedPure]
    intro name q q' _ _ _ _
    exact h

theorem applyCreateQueue_logged (name : String) (h : w.disk.storage.Logged log) :
    (FSM.applyCreateQueue name).Ensures w fun _ w' => w'.disk.storage.Logged log := by
  simp only [FSM.applyCreateQueue, ensures_bind, ensures_getOrCreateQueue]
  exact createQueue_logged h name

theorem apply_logged {cmd : Command} (hcmd : cmd ∈ log) (env : ApplyEnv)
    (h : w.disk.storage.Logged log) :
    (FSM.apply cmd env).Ensures w fun _ w' => w'.disk.storage.Logged log := by
  cases cmd with
  | publish cmd =>
    simp only [FSM.apply, FSM.applyPublish]
    cases hstream : cmd.stream with
    | true => exact applyStreamPublish_logged cmd h
    | false => exact applyQueuePublish_logged hstream hcmd env.enqueue h
  | ack queue messageID => exact applyAck_logged queue messageID env.enqueue.pass h
  | nack queue messageID requeue =>
    exact applyNack_logged queue messageID requeue env.now env.enqueue.pass h
  | createQueue name | schemaRegister name => exact applyCreateQueue_logged name h
  | deleteQueue | unknown | undecodable => exact h

end Apply

structure World.Logged (log : List Command) (w : World) : Prop where
  storage : w.disk.storage.Logged log
  live : ∀ name, ∀ id ∈ w.liveIds name, id ∈ (published name log).map Message.id

theorem published_snoc (name : String) (log : List Command) (cmd : Command) :
    published name (log ++ [cmd]) = published name log ++ (cmd.message? name).toList := by
  rw [published, filterMap_append]
  cases h : cmd.message? name <;> simp [published, h]

theorem Command.created_ids {id : String}
    (hid : id ∈ (created queue held name).getD ∅) : id ∈ (held name).getD ∅ := by
  unfold created at hid
  rw [Function.update_apply] at hid
  split at hid
  · rename_i hname
    rwa [hname]
  · exact hid

theorem Command.settled_ids {messageID id : String} {out : Bool}
    (h : settled queue messageID out held = (answer, held')) (hid : id ∈ (held' name).getD ∅) :
    id ∈ (held name).getD ∅ := by
  unfold settled at h
  split at h
  · cases h
    exact hid
  · rename_i ids hids
    cases h
    rw [Function.update_apply] at hid
    split at hid
    · rename_i hname
      rw [hname, hids, Option.getD_some]
      split at hid
      · exact hid.1
      · exact hid
    · exact hid

theorem Command.next_ids {cmd : Command} {choice : Bool} {id : String}
    (h : cmd.next choice held = (answer, held'))
    (hid : id ∈ (held' name).getD ∅) :
    id ∈ (held name).getD ∅ ∨ id ∈ (cmd.message? name).toList.map Message.id := by
  cases cmd with
  | publish cmd =>
    simp only [next] at h
    split at h
    · cases h
      exact .inl hid
    · rename_i hstream
      split at h
      · cases h
        exact .inl (created_ids hid)
      · cases h
        rw [Function.update_apply] at hid
        split at hid
        · rename_i hname
          rcases hid with hnew | hold
          · right
            rw [message?, if_pos ⟨Bool.eq_false_iff.mpr hstream, hname.symm⟩]
            exact mem_singleton.mpr hnew
          · exact .inl (hname ▸ hold)
        · exact .inl hid
  | ack | nack => exact .inl (settled_ids h hid)
  | createQueue queue | schemaRegister queue =>
    cases h
    exact .inl (created_ids hid)
  | deleteQueue | unknown | undecodable =>
    cases h
    exact .inl hid

namespace Node

theorem Runs.logged {present : Bool} {memoryLimit : UInt64} {log : List Command}
    (run : Runs (.node present memoryLimit) log w) : w.Logged log :=
  (run.invariant (fun log w => w.Steady ∧ w.Logged log)
    ⟨node_steady present memoryLimit,
      ⟨fun _ h => (by cases h), fun _ h => (by cases h)⟩, fun _ _ h => (by cases h)⟩
    fun {history _ _ _} ⟨hsteady, h⟩ step => by
      cases step with
      | command cmd env hrun =>
        have hfollows := apply_run hsteady hrun
        refine ⟨hfollows.steady, ?_, fun name id hid => ?_⟩
        · have hcmd : cmd ∈ history ++ [cmd] := mem_append_right _ (mem_singleton_self cmd)
          exact ensures_iff.mp (apply_logged hcmd env (h.storage.snoc cmd)) _ _ hrun
        · rw [published_snoc, map_append, mem_append]
          refine (Command.next_ids hfollows.next (World.mem_liveIds.mp hid)).imp_left fun hheld => ?_
          exact h.live name id (World.mem_liveIds.mpr hheld)
      | locally queue op hlocal hrun =>
        have ⟨hnext, hdisk, hheld⟩ := ensures_iff.mp (locally_keeps hsteady hlocal) _ _ hrun
        rw [append_nil]
        refine ⟨hnext, hdisk ▸ h.storage, fun name id hid => ?_⟩
        rw [World.mem_liveIds, hheld, ← World.mem_liveIds] at hid
        exact h.live name id hid).2

end Node

end QwerQ
