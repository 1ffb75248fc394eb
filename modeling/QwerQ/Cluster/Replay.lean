import QwerQ.Cluster.Log
import QwerQ.Broker.Load

/-! A cluster node that restarts. `serve` loads the storage into a new broker, and
then Raft applies the whole log again. Nobody consumes meanwhile: a publish of the
log is put behind what was loaded, and a settlement finds nothing in flight. -/
namespace QwerQ
open List Process
variable {w w' : World} {q : Queue}

/-- The entries of the log, each with what its application meets this time. -/
def replay : List (Command × ApplyEnv) → Prog Unit
  | [] => return ()
  | (cmd, env) :: rest => do
      let _ ← FSM.apply cmd env
      replay rest

/-- A node that cannot load its storage does not join the cluster. -/
def restart (order : List String) (load : Message → Env) (entries : List (Command × ApplyEnv)) :
    Prog (Option Err) := do
  match ← loadFromStorage order load with
  | some err => return some err
  | none =>
      replay entries
      return none

namespace Queue

def accept (q : Queue) (msg : Message) : Queue :=
  if q.full then q else { q with messages := q.messages ++ [msg] }

theorem accept_name (q : Queue) (msg : Message) : (q.accept msg).name = q.name := by
  unfold accept
  split <;> rfl

theorem accept_maxSize (q : Queue) (msg : Message) : (q.accept msg).maxSize = q.maxSize := by
  unfold accept
  split <;> rfl

theorem Idle.accept (h : q.Idle) (msg : Message) : (q.accept msg).Idle := by
  unfold Queue.accept
  split
  · exact h
  · exact ⟨⟨h.routed, h.ungrouped⟩, h.consumers, h.inFlight⟩

theorem Idle.enqueue (h : q.Idle) (msg : Message) (env : Env) :
    q.enqueue msg env = .ok (q.accept msg, if q.full then some .queueFull else none) := by
  unfold Queue.enqueue Queue.accept
  split
  · rfl
  · rw [enqueueDirect_unconsumed msg env h.consumers h.ungrouped]
    rfl

theorem Idle.ack (h : q.Idle) (messageID : String) (pass : Pass) :
    q.ackWithHook messageID Hook.none pass () = .ok ((q, ()), false, none) := by
  rw [ackWithHook, h.inFlight, KeyedMap.find?_empty]

theorem Idle.nack (h : q.Idle) (messageID : String) (requeue : Bool) (now : Time) (pass : Pass) :
    q.nackWithHooks messageID requeue Hook.none Hook.none now pass () =
      .ok ((q, ()), ⟨false, none, false, false⟩, none) := by
  rw [nackWithHooks, h.inFlight, KeyedMap.find?_empty]

theorem foldl_accept (size : Nat) (messages : List Message) (hsize : 0 < size)
    (hmax : q.maxSize = size) :
    messages.foldl accept q =
      { q with messages := q.messages ++ messages.take (size - q.messages.length) } := by
  induction messages generalizing q with
  | nil => simp
  | cons msg messages ih =>
    rw [foldl_cons, ih ((accept_maxSize q msg).trans hmax)]
    unfold accept full
    by_cases hfull : size ≤ q.messages.length
    · simp [hmax, hsize, hfull, Nat.sub_eq_zero_of_le hfull]
    · have hroom : size - q.messages.length = size - (q.messages.length + 1) + 1 := by omega
      simp [hmax, hfull, hroom]

end Queue

/-- A command adds its message if there is room, and does nothing else to the queues. -/
structure Accepts (cmd : Command) (w w' : World) : Prop where
  quiet : w'.disk.Quiet
  queues : ∀ name, w'.queueAt name = (cmd.message? name).toList.foldl Queue.accept (w.queueAt name)

theorem Accepts.idle {cmd : Command} (h : Accepts cmd w w') (hidle : w.Idle) : w'.Idle := by
  refine ⟨fun name => ?_, h.quiet⟩
  rw [h.queues]
  cases cmd.message? name with
  | none => exact hidle.queues name
  | some msg => exact (hidle.queues name).accept msg

theorem Accepts.of_same {cmd : Command} (hcmd : ∀ name, cmd.message? name = none)
    (hquiet : w'.disk.Quiet) (hsame : ∀ name, w'.queueAt name = w.queueAt name) :
    Accepts cmd w w' :=
  ⟨hquiet, fun name => by rw [hsame, hcmd]; rfl⟩

theorem applyQueuePublish_accepts (h : w.Idle) {cmd : PublishCommand} (hqueue : cmd.stream = false)
    (env : Env) : (FSM.applyQueuePublish cmd env).Returns w fun _ => Accepts (.publish cmd) w := by
  simp only [FSM.applyQueuePublish, returns_bind]
  refine getOrCreateQueue_founds h.steady fun next hfounded => ?_
  have hqueues (other : String) : (next.setQueue ((w.queueAt cmd.queue).accept
      (FSM.publishedMessage cmd))).queueAt other =
        ((Command.publish cmd).message? other).toList.foldl Queue.accept (w.queueAt other) := by
    rw [World.queueAt_setQueue hfounded.queue (Queue.accept_name _ _), Command.message?,
      hfounded.same]
    by_cases hother : other = cmd.queue
    · simp [hother, hqueue]
    · simp [hother, Ne.symm hother]
  refine (returns_lockedPure hfounded.queue).mpr
    ⟨_, _, by rw [(h.queues cmd.queue).enqueue]; rfl, ?_⟩
  split
  · exact ⟨hfounded.steady.quiet, hqueues⟩
  · simp only [saveMessage, returns_bind, returns_write, World.setQueue_disk,
      hfounded.steady.quiet.write_eq]
    exact ⟨hfounded.steady.quiet.stores _, hqueues⟩

theorem applyStreamPublish_accepts (h : w.Idle) {cmd : PublishCommand} (hstream : cmd.stream = true) :
    (FSM.applyStreamPublish cmd).Returns w fun _ => Accepts (.publish cmd) w := by
  simp only [FSM.applyStreamPublish, returns_bind]
  refine getOrCreateStreamQueue_quiet h.quiet fun next sq hsq hqueues hquiet _ => ?_
  refine (returns_lockedStream hsq).mpr ?_
  simp only [StreamQueue.publish, hquiet.write_eq]
  refine .of_same (fun name => by simp [Command.message?, hstream]) (hquiet.stores _) fun name => ?_
  exact congrArg (fun queues => (queues.find? name).getD (Queue.new name)) hqueues

theorem applyAck_accepts (h : w.Idle) (queue messageID : String) (pass : Pass) :
    (FSM.applyAck queue messageID pass).Returns w fun _ => Accepts (.ack queue messageID) w := by
  refine returns_lookup (fun _ => .of_same (fun _ => rfl) h.quiet fun _ => rfl) fun q hq => ?_
  refine returns_bind.mpr ((returns_lockedPure hq).mpr ⟨q, (), by rw [(h.queue hq).ack]; rfl, ?_⟩)
  simp only [deleteMessage, returns_bind, returns_write, World.setQueue_disk, h.quiet.write_eq]
  exact .of_same (fun _ => rfl) (h.quiet.stores _) (World.queueAt_setQueue_same hq)

theorem applyNack_accepts (h : w.Idle) (queue messageID : String) (requeue : Bool) (now : Time)
    (pass : Pass) :
    (FSM.applyNack queue messageID requeue now pass).Returns w fun _ =>
      Accepts (.nack queue messageID requeue) w := by
  refine returns_lookup (fun _ => .of_same (fun _ => rfl) h.quiet fun _ => rfl) fun q hq => ?_
  refine returns_bind.mpr ((returns_lockedPure hq).mpr ⟨q, (), by rw [(h.queue hq).nack]; rfl, ?_⟩)
  exact .of_same (fun _ => rfl) h.quiet (World.queueAt_setQueue_same hq)

theorem apply_accepts (h : w.Idle) (cmd : Command) (env : ApplyEnv) :
    (FSM.apply cmd env).Returns w fun _ => Accepts cmd w := by
  cases cmd with
  | publish cmd =>
    simp only [FSM.apply, FSM.applyPublish]
    cases hstream : cmd.stream with
    | true => exact applyStreamPublish_accepts h hstream
    | false => exact applyQueuePublish_accepts h hstream env.enqueue
  | ack queue messageID => exact applyAck_accepts h queue messageID env.enqueue.pass
  | nack queue messageID requeue =>
    exact applyNack_accepts h queue messageID requeue env.now env.enqueue.pass
  | createQueue name | schemaRegister name =>
    refine (applyCreateQueue_founds h.steady name).mono fun _ _ hmade => ?_
    exact .of_same (fun _ => rfl) hmade.2.steady.quiet hmade.2.same
  | deleteQueue | unknown | undecodable => exact .of_same (fun _ => rfl) h.quiet fun _ => rfl

theorem replay_accepts (entries : List (Command × ApplyEnv)) (h : w.Idle) :
    (replay entries).Returns w fun _ w' => ∀ name, w'.queueAt name =
      (published name (entries.map Prod.fst)).foldl Queue.accept (w.queueAt name) := by
  induction entries generalizing w with
  | nil => exact fun _ => rfl
  | cons entry entries ih =>
    simp only [replay, returns_bind]
    refine (apply_accepts h entry.1 entry.2).mono fun _ next haccepts => ?_
    refine (ih (haccepts.idle h)).mono fun _ w' hqueues name => ?_
    rw [hqueues, haccepts.queues, map_cons, published, published, filterMap_cons]
    cases entry.1.message? name <;> rfl

/-- The ids that the storage gives back to a queue: those of its records, if it is
configured, and not as a stream. -/
def Storage.reloaded (name : String) (s : Storage) : List String :=
  match s.queues.find? name with
  | none => []
  | some entry => if entry.2.mode = .stream then [] else (s.loadMessages name).map Message.id

/-- The ids that the log puts behind them, until the queue is full. -/
def replayed (name : String) (log : List Command) (s : Storage) : List String :=
  ((published name log).map Message.id).take (defaultMaxQueueSize.toNat - (s.reloaded name).length)

theorem Storage.reloaded_nodup (name : String) (s : Storage) : (s.reloaded name).Nodup := by
  unfold reloaded
  split
  · exact nodup_nil
  · split
    · exact nodup_nil
    · exact s.loadMessages_ids_nodup name

variable {name : String} {s : Storage} {log : List Command}

theorem Storage.reloaded_of_empty (name : String) (h : s.messages = ∅) :
    s.reloaded name = [] := by
  unfold reloaded loadMessages stored
  rw [h]
  split
  · rfl
  · exact ite_self _

structure Reloaded (s : Storage) (name : String) (q : Queue) : Prop extends Queue.Idle q where
  messages : q.messages.map Message.id = s.reloaded name
  maxSize : q.maxSize = defaultMaxQueueSize

theorem Recovered.reloaded (h : Recovered s w)
    (hlogged : s.Logged log) (name : String) : Reloaded s name (w.queueAt name) := by
  have hqueue := h.queues name
  cases hentry : s.queues.find? name with
  | none =>
    rw [hentry] at hqueue
    rw [World.queueAt, hqueue]
    exact ⟨Queue.idle_new name, by rw [Storage.reloaded, hentry]; rfl, rfl⟩
  | some entry =>
    rw [hentry, Option.bind_some, Storage.loadedQueue?] at hqueue
    obtain ⟨hmem, hname⟩ := KeyedMap.find?_eq_some_iff.mp hentry
    rcases hlogged.configs entry hmem with hconfig | hconfig
    · have hmode : entry.2.mode ≠ .stream := by simp [hconfig, newConfig]
      rw [if_neg hmode] at hqueue
      rw [World.queueAt_of_some hqueue]
      refine ⟨⟨⟨fun _ h => absurd h not_mem_nil, rfl⟩, rfl, rfl⟩, ?_, ?_⟩
      · rw [Storage.loadedQueue, map_map, Storage.reloaded, hentry, hname]
        simp only [if_neg hmode]
        rfl
      · rw [Storage.loadedQueue, hconfig]
        rfl
    · have hmode : entry.2.mode = .stream := by simp [hconfig, streamConfig]
      rw [if_pos hmode] at hqueue
      rw [World.queueAt, hqueue]
      refine ⟨Queue.idle_new name, ?_, rfl⟩
      rw [Storage.reloaded, hentry]
      simp only [if_pos hmode]
      rfl

theorem Reloaded.live (h : Reloaded s name q) (log : List Command) :
    ((published name log).foldl Queue.accept q).live.map Message.id =
      s.reloaded name ++ replayed name log s := by
  have hlength : (s.reloaded name).length = q.messages.length := by
    rw [← h.messages, length_map]
  rw [Queue.foldl_accept 10000 (published name log) (by decide) h.maxSize, Queue.live,
    h.inFlight, KeyedMap.entries_empty, append_nil, map_append, h.messages, replayed, hlength,
    map_take]
  rfl

theorem restart_liveIds {entries : List (Command × ApplyEnv)}
    (hsound : w.disk.Sound) (hlogged : w.disk.storage.Logged log) (memoryLimit : UInt64)
    (order : List String) (load : Message → Env) (hentries : entries.map Prod.fst = log) :
    (restart order load entries).Returns (w.restarted memoryLimit) fun err w' => err = none ∧
      ∀ name, w'.liveIds name =
        w.disk.storage.reloaded name ++ replayed name log w.disk.storage := by
  have hopened : (w.restarted memoryLimit).disk.Sound := hsound
  simp only [restart, returns_bind]
  refine (loadFromStorage_recovers order load hopened (fun _ => rfl) fun _ => rfl).mono ?_
  rintro _ loaded ⟨rfl, hrecovered⟩
  have hreloaded := hrecovered.reloaded hlogged
  have hidle : loaded.Idle := ⟨fun name => (hreloaded name).toIdle, hrecovered.sound.faults⟩
  simp only [returns_bind]
  refine (replay_accepts entries hidle).mono fun _ w' hqueues => ⟨rfl, fun name => ?_⟩
  rw [World.liveIds_eq, hqueues, hentries]
  exact (hreloaded name).live log

/-- No id is replayed twice or beside its record, and the ids reloaded and replayed
are the live ones. -/
structure Restartable (log : List Command) (w : World) (name : String) : Prop where
  once : (replayed name log w.disk.storage).Nodup
  unrecorded : ∀ id ∈ replayed name log w.disk.storage, id ∉ w.disk.storage.reloaded name
  live : ∀ id, id ∈ w.liveIds name ↔
    id ∈ w.disk.storage.reloaded name ∨ id ∈ replayed name log w.disk.storage

theorem restartable_iff
    (h : w'.liveIds name = w.disk.storage.reloaded name ++ replayed name log w.disk.storage) :
    ((w'.liveIds name).Nodup ∧ ∀ id, id ∈ w'.liveIds name ↔ id ∈ w.liveIds name) ↔
      Restartable log w name := by
  simp only [h, nodup_append', mem_append]
  constructor
  · rintro ⟨⟨_, honce, hdisjoint⟩, hlive⟩
    exact ⟨honce, fun id hreplayed hreloaded => hdisjoint hreloaded hreplayed,
      fun id => (hlive id).symm⟩
  · rintro ⟨honce, hunrecorded, hlive⟩
    exact ⟨⟨Storage.reloaded_nodup _ _, honce,
      fun id hreloaded hreplayed => hunrecorded id hreplayed hreloaded⟩, fun id => (hlive id).symm⟩

theorem Storage.Logged.reloaded {id : String} (h : s.Logged log) (hid : id ∈ s.reloaded name) :
    id ∈ (published name log).map Message.id := by
  unfold Storage.reloaded at hid
  split at hid
  · cases hid
  · split at hid
    · cases hid
    · have ⟨msg, hmsg, hkey⟩ := mem_map.mp hid
      have ⟨hmem, hqueue⟩ := Storage.mem_loadMessages.mp hmsg
      exact hkey ▸ hqueue ▸ h.records msg hmem

/-- Where the queue has room for the records and the log, nothing may be reloaded:
every record is of a message that the log publishes. -/
theorem restartable_iff_of_fits (h : w.Logged log)
    (hfits : (w.disk.storage.reloaded name).length + (published name log).length ≤ 10000) :
    Restartable log w name ↔ w.disk.storage.reloaded name = [] ∧
      ((published name log).map Message.id).Nodup ∧
      ∀ msg ∈ published name log, msg.id ∈ w.liveIds name := by
  have hall : replayed name log w.disk.storage = (published name log).map Message.id := by
    refine take_of_length_le ?_
    rw [length_map]
    simp only [defaultMaxQueueSize]
    omega
  constructor
  · rintro ⟨honce, hunrecorded, hlive⟩
    rw [hall] at honce hunrecorded
    refine ⟨?_, honce, fun msg hmsg => ?_⟩
    · refine eq_nil_iff_forall_not_mem.mpr fun id hid => ?_
      exact hunrecorded id (h.storage.reloaded hid) hid
    · rw [hlive, hall]
      exact .inr (mem_map_of_mem hmsg)
  · rintro ⟨hnone, honce, hheld⟩
    refine ⟨hall ▸ honce, fun id _ => by simp [hnone], fun id => ?_⟩
    rw [hnone, hall]
    constructor
    · exact fun hid => .inr (h.live name id hid)
    · rintro (hid | hid)
      · cases hid
      · obtain ⟨msg, hmsg, hkey⟩ := mem_map.mp hid
        exact hkey ▸ hheld msg hmsg

/-- A restart of a node with a storage returns, and gives every queue the ids it held,
each once, exactly if every queue can be restarted; a queue with room for the records
and the log can exactly if none is reloaded and the log has published each id once,
all of them still held. -/
theorem restart_exact_iff {limit : UInt64} {log : List Command}
    (run : Node.Runs (.node true limit) log w) (memoryLimit : UInt64) (order : List String)
    (load : Message → Env) (entries : List (Command × ApplyEnv))
    (hentries : entries.map Prod.fst = log) :
    (∃ w', (restart order load entries).run (w.restarted memoryLimit) = (.ok none, w') ∧
      ((∀ name, (w'.liveIds name).Nodup ∧ ∀ id, id ∈ w'.liveIds name ↔ id ∈ w.liveIds name) ↔
        ∀ name, Restartable log w name)) ∧
    ∀ name, (w.disk.storage.reloaded name).length + (published name log).length ≤ 10000 →
      (Restartable log w name ↔ w.disk.storage.reloaded name = [] ∧
        ((published name log).map Message.id).Nodup ∧
        ∀ msg ∈ published name log, msg.id ∈ w.liveIds name) := by
  have hlogged := run.logged
  have ⟨hsteady, hpresent⟩ := run.steady (Node.node_steady true limit)
  have ⟨_, w', hrun, hnone, hlive⟩ := returns_iff.mp (restart_liveIds ⟨hpresent, hsteady.quiet⟩
    hlogged.storage memoryLimit order load hentries)
  refine ⟨⟨w', hnone ▸ hrun, forall_congr' fun name => restartable_iff (hlive name)⟩, ?_⟩
  exact fun name => restartable_iff_of_fits hlogged

namespace Node

def loadEnv : Message → Env := fun _ => epochEnv.enqueue

theorem order_applied : Runs (.node true 0) [publishOrder] (applied publishOrder (.node true 0)) :=
  Run.start.next (.command publishOrder epochEnv (Prod.ext rfl rfl))

/-- The message is loaded, and then published again. -/
theorem restart_duplicates :
    ∃ w w', Runs (.node true 0) [publishOrder] w ∧ w.liveIds "orders" = ["a"] ∧
      (restart [] loadEnv [(publishOrder, epochEnv)]).run (w.restarted 0) = (.ok none, w') ∧
      w'.liveIds "orders" = ["a", "a"] :=
  ⟨_, _, order_applied, rfl, Prod.ext rfl rfl, rfl⟩

/-- An ack that finds the message pending has only deleted its record. -/
theorem restart_exact_acked :
    ∃ w w', Runs (.node true 0) [publishOrder, ackOrder] w ∧ w.liveIds "orders" = ["a"] ∧
      (restart [] loadEnv [(publishOrder, epochEnv), (ackOrder, epochEnv)]).run (w.restarted 0) =
        (.ok none, w') ∧
      ∀ name, (w'.liveIds name).Nodup ∧ ∀ id, id ∈ w'.liveIds name ↔ id ∈ w.liveIds name := by
  have run := order_applied.next (.command ackOrder epochEnv (Prod.ext rfl rfl))
  have ⟨⟨w', hrun, hexact⟩, hfits⟩ := restart_exact_iff run 0 [] loadEnv
    [(publishOrder, epochEnv), (ackOrder, epochEnv)] rfl
  refine ⟨_, w', run, rfl, hrun, hexact.mpr fun name => (hfits name ?_).mpr ?_⟩
  all_goals rw [Storage.reloaded_of_empty name rfl]
  · exact (Nat.zero_add _).trans_le ((List.length_filterMap_le _ _).trans (by decide))
  · by_cases hname : "orders" = name
    · subst hname
      exact ⟨rfl, by decide, by decide⟩
    · have hnone : published name [publishOrder, ackOrder] = [] := by
        simp [published, publishOrder, ackOrder, Command.message?, hname]
      rw [List.cons_append, List.nil_append, hnone]
      exact ⟨rfl, List.nodup_nil, fun _ h => by cases h⟩

end Node

end QwerQ
