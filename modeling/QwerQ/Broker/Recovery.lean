import QwerQ.Broker.Durability
import QwerQ.Broker.Load

/-! Runs of a broker in queue mode over a storage that does not fail, and what
`LoadFromStorage` makes of the storage in a new broker. -/
namespace QwerQ
open List Process Option
variable {w : World} {name : String}

def World.fresh (memoryLimit : UInt64) : World :=
  ⟨Broker.new memoryLimit, ⟨true, Storage.empty, fun _ => none⟩⟩

inductive BrokerOp where
  | publish (req : PublishRequest) (env : PublishEnv)
  | consume (queue : String) (visibilityTimeout : UInt32) (memberID : String) (now : Time)
      (pass : Pass)
  | receive (queue : String) (ch : Nat)
  | ack (id queue : String) (pass : Pass)
  | nack (id queue : String) (requeue : Bool) (env : NackEnv)
  | extendVisibility (id queue : String) (extensionSeconds : UInt32) (now : Time)
  | requeueExpired (queue : String) (sweep : Sweep) (group : String → Sweep)
  | removeConsumer (queue memberID : String) (ch : Nat) (clock : String → Time)
      (order : List String) (pass : Pass)
  | retryDLQ (queue : String) (env : Nat → RetryEnv)
  | purge (queue : String)

namespace BrokerOp

def program : BrokerOp → Prog Unit
  | .publish req env => do let _ ← handlePublish req env
  | .consume queue visibilityTimeout memberID now pass => do
      let _ ← handleConsume queue visibilityTimeout "" memberID now pass
  | .receive queue ch => QwerQ.receive queue ch
  | .ack id queue pass => do let _ ← handleAck id queue "" pass
  | .nack id queue requeue env => do let _ ← handleNack id queue "" requeue env
  | .extendVisibility id queue extensionSeconds now => do
      let _ ← handleExtendVisibility id queue extensionSeconds now
  | .requeueExpired queue sweep group => QwerQ.requeueExpired queue sweep group
  | .removeConsumer queue memberID ch clock order pass => do
      let _ ← handleUnsubscribe queue "" memberID (some ch) clock order pass
  | .retryDLQ queue env => do let _ ← QwerQ.retryDLQ queue env
  | .purge queue => do let _ ← purgeQueue queue

def generated : BrokerOp → List String
  | .publish _ env => [env.ulid]
  | _ => []

/-- Publishes leave the id to the broker, which generates a new one; a nack that moves a
message to the DLQ finds room there. -/
def Allowed (used : List String) (w : World) : BrokerOp → Prop
  | .publish req env => req.messageId = "" ∧ env.ulid ∉ used
  | .nack id queue requeue _ => w.verdict queue "" id requeue = some .toDLQ →
      ∀ dlq, w.queue? (dlqName queue) = some dlq → dlq.full = false
  | _ => True

inductive Step : List String → World → List String → World → Prop where
  | call {used : List String} {w w' : World} (op : BrokerOp) : op.Allowed used w →
      op.program.run w = (.ok (), w') → Step used w op.generated w'

abbrev Runs := Run Step

variable {used : List String}

theorem program_mirrors {op : BrokerOp} (h : Mirrors used w)
    (hallowed : op.Allowed used w) :
    op.program.Returns w fun _ w' => Mirrors (used ++ op.generated) w' := by
  have hkeep {α : Type} {program : Prog α} (hreturns : program.Returns w fun _ w' => Mirrors used w') :
      (do let _ ← program).Returns w fun _ w' => Mirrors (used ++ []) w' := by
    rw [append_nil, returns_bind]
    exact hreturns
  cases op with
  | publish req env =>
    simp only [program, returns_bind]
    refine (handlePublish_mirrors h hallowed.1 hallowed.2).mono fun _ w' h' => ?_
    exact ⟨h'.holds, h'.placed.mono fun id hid => by simpa [generated, or_comm] using hid⟩
  | consume queue visibilityTimeout memberID now pass =>
    exact hkeep (handleConsume_mirrors visibilityTimeout memberID now pass h)
  | receive queue ch => simpa [program, generated] using receive_mirrors ch h
  | ack id queue pass => exact hkeep (handleAck_mirrors pass h)
  | nack id queue requeue env => exact hkeep (handleNack_mirrors requeue env h hallowed)
  | extendVisibility id queue extensionSeconds now =>
    exact hkeep (handleExtendVisibility_mirrors extensionSeconds now h)
  | requeueExpired queue sweep group =>
    simpa [program, generated] using requeueExpired_mirrors sweep group h
  | removeConsumer queue memberID ch clock order pass =>
    exact hkeep (handleUnsubscribe_mirrors memberID (some ch) clock order pass h)
  | retryDLQ queue env => exact hkeep (retryDLQ_mirrors env h)
  | purge queue => exact hkeep (purgeQueue_mirrors h)

theorem mirrors_fresh (memoryLimit : UInt64) : Mirrors [] (World.fresh memoryLimit) where
  holds :=
    { sound := ⟨rfl, rfl⟩
      stored := rfl
      live := rfl
      orderly := fun h => by cases h
      configs := fun _ => rfl }
  placed := ⟨fun h => (by cases h), fun h => (by cases h)⟩

theorem Runs.mirrors {memoryLimit : UInt64}
    (run : Runs (World.fresh memoryLimit) used w) : Mirrors used w :=
  run.invariant Mirrors (mirrors_fresh memoryLimit) fun h step => by
    cases step with
    | call op hallowed hrun =>
      have hreturns := program_mirrors h hallowed
      unfold Returns at hreturns
      rw [hrun] at hreturns
      exact hreturns

end BrokerOp

variable {used : List String}

theorem Mirrors.stored_iff (h : Mirrors used w) (name id : String) :
    (w.disk.storage.messages.find? (name, id)).isSome ↔ id ∈ w.liveIds name := by
  have hstored := h.stored_eq (name, id)
  rw [Storage.table] at hstored
  rw [← isSome_map, hstored, World.table, World.liveIds]
  cases hq : w.queue? name with
  | none => simp
  | some q =>
    rw [bind_some, map_some, getD_some, ← Queue.ledger_ids,
      ← not_iff_not, ← Queue.table_eq_none_iff, Bool.not_eq_true, isSome_eq_false_iff,
      isNone_iff_eq_none]

theorem Mirrors.liveIds_nodup (h : Mirrors used w) (name : String) :
    (w.liveIds name).Nodup := by
  rw [World.liveIds]
  cases hq : w.queue? name with
  | none => exact nodup_nil
  | some q =>
    have hdistinct := (h.holds.orderly hq).distinct
    rw [Queue.Distinct, Queue.ledger_ids] at hdistinct
    exact hdistinct

theorem Mirrors.record {q : Queue} {msg : Message} (h : Mirrors used w)
    (hq : w.queue? name = some q) (hmsg : msg ∈ q.live) :
    ∃ record, w.disk.storage.messages.find? (name, msg.id) = some record ∧
      record.body = msg.body := by
  have hheld : q.table msg.id = some msg.body :=
    (Queue.table_eq_some_iff (h.holds.orderly hq).distinct).mpr ⟨mem_map_of_mem hmsg, rfl⟩
  have hstored := h.stored_eq (name, msg.id)
  rw [World.table_of_queue? hq, hheld] at hstored
  exact map_eq_some_iff.mp hstored

theorem Mirrors.stored_perm {q : Queue} (h : Mirrors used w)
    (hq : w.queue? name = some q) :
    ((w.disk.storage.stored name).map Message.body).Perm q.ledger := by
  have horderly := h.holds.orderly hq
  have hids := w.disk.storage.stored_ids_nodup name
  rw [perm_ext_iff_of_nodup (List.Nodup.of_map Body.id (by rw [List.map_map]; exact hids))
    (List.Nodup.of_map Body.id horderly.distinct)]
  intro body
  have htable := h.stored_eq (name, body.id)
  rw [World.table_of_queue? hq] at htable
  have hlive : q.table body.id = some body ↔ body ∈ q.ledger := by
    rw [Queue.table_eq_some_iff horderly.distinct]
    exact ⟨fun hbody => hbody.1, fun hmem => ⟨hmem, rfl⟩⟩
  rw [← hlive, ← htable, Storage.table, map_eq_some_iff, List.mem_map]
  constructor
  · rintro ⟨msg, hmsg, hbody⟩
    obtain ⟨hmem, hqueue⟩ := mem_filter.mp hmsg
    refine ⟨msg, KeyedMap.find?_eq_some_iff.mpr ⟨hmem, ?_⟩, hbody⟩
    exact Prod.ext (by simpa using hqueue) (congrArg Body.id hbody)
  · rintro ⟨msg, hfind, hbody⟩
    obtain ⟨hmem, hkey⟩ := KeyedMap.find?_eq_some_iff.mp hfind
    exact ⟨msg, mem_filter.mpr ⟨hmem, by simpa using congrArg Prod.fst hkey⟩, hbody⟩

theorem Mirrors.restart (memoryLimit : UInt64) (order : List String)
    (env : Message → Env) (h : Mirrors used w) :
    (loadFromStorage order env).Returns (w.restarted memoryLimit) fun err w' => err = none ∧
      ∀ name, (w.queue? name = none → w'.queue? name = none) ∧
        ∀ q, w.queue? name = some q → ∃ q', w'.queue? name = some q' ∧ q'.inFlight = ∅ ∧
          (q'.messages.map Message.body).Perm (q.live.map Message.body) := by
  have hsound : (w.restarted memoryLimit).disk.Sound := h.holds.sound
  refine (loadFromStorage_recovers order env hsound (fun _ => rfl) fun _ => rfl).mono ?_
  rintro err w' ⟨hnone, hrecovered⟩
  have hconfig (name : String) : (w.restarted memoryLimit).disk.storage.queues.find? name =
      storedConfig w name := h.holds.configs name
  refine ⟨hnone, fun name => ⟨fun hq => ?_, fun q hq => ?_⟩⟩
  · rw [hrecovered.queues, hconfig, storedConfig, hq]
    rfl
  · have hentry := hconfig name
    rw [storedConfig, hq, map_some] at hentry
    refine ⟨_, hrecovered.queue_eq hentry (fun hstream => by cases hstream), rfl, ?_⟩
    rw [Storage.loadedQueue, List.map_map]
    exact ((perm_insertionSort _ _).map Message.body).trans (h.stored_perm hq)

/-- After every run the storage holds exactly the messages of the queues, each
under its queue and with its contents; a further operation returns; and a new
broker over that storage recovers every queue with these messages pending. -/
theorem storage_mirrors_queues {memoryLimit : UInt64} {used : List String}
    (run : BrokerOp.Runs (World.fresh memoryLimit) used w) :
    (∀ op : BrokerOp, op.Allowed used w → ∃ w', op.program.run w = (.ok (), w')) ∧
      (∀ name, (w.liveIds name).Nodup ∧
        (∀ id, (w.disk.storage.messages.find? (name, id)).isSome ↔ id ∈ w.liveIds name) ∧
        ∀ q msg, w.queue? name = some q → msg ∈ q.live → msg.queue = name ∧
          ∃ record, w.disk.storage.messages.find? (name, msg.id) = some record ∧
            record.payload = msg.payload ∧ record.headers = msg.headers ∧
            record.orderingKey = msg.orderingKey) ∧
      ∀ memoryLimit order env, ∃ w',
        (loadFromStorage order env).run (w.restarted memoryLimit) = (.ok none, w') ∧
        ∀ name, (w.queue? name = none → w'.queue? name = none) ∧
          ∀ q, w.queue? name = some q → ∃ q', w'.queue? name = some q' ∧ q'.inFlight = ∅ ∧
            (q'.messages.map Message.body).Perm (q.live.map Message.body) := by
  have h := run.mirrors
  refine ⟨?_, ?_, ?_⟩
  · intro op hallowed
    have ⟨_, w', hrun, _⟩ := returns_iff.mp (BrokerOp.program_mirrors h hallowed)
    exact ⟨w', hrun⟩
  · intro name
    refine ⟨h.liveIds_nodup name, h.stored_iff name, ?_⟩
    intro q msg hq hmsg
    have ⟨record, hfind, hbody⟩ := h.record hq hmsg
    have hkey := (KeyedMap.find?_eq_some_iff.mp hfind).2
    refine ⟨?_, record, hfind, congrArg Body.payload hbody, congrArg Body.headers hbody,
      congrArg Body.orderingKey hbody⟩
    exact (congrArg Body.queue hbody).symm.trans (congrArg Prod.fst hkey)
  · intro memoryLimit order env
    have ⟨err, w', hrun, hnone, hqueues⟩ := returns_iff.mp (h.restart memoryLimit order env)
    rw [hnone] at hrun
    exact ⟨w', hrun, hqueues⟩

namespace BrokerOp

theorem Runs.then {start : World} (run : Runs start used w) (op : BrokerOp)
    (hallowed : op.Allowed used w) (hok : (op.program.run w).1 = .ok ()) :
    Runs start (used ++ op.generated) (op.program.run w).2 :=
  run.next (.call op hallowed (Prod.ext hok rfl))

end BrokerOp

def orderRequest : PublishRequest := ⟨"orders", [1], ∅, "", "", ""⟩

def delivered : World :=
  ((BrokerOp.publish orderRequest ⟨0, 0, "a", 0, Queue.quiet⟩).program.run
    ((BrokerOp.consume "orders" 30 "c" 0 ⟨0, []⟩).program.run (World.fresh 0)).2).2

theorem delivered_runs : BrokerOp.Runs (World.fresh 0) ["a"] delivered :=
  (BrokerOp.Runs.then .start (.consume "orders" 30 "c" 0 ⟨0, []⟩) trivial rfl).then
    (.publish orderRequest ⟨0, 0, "a", 0, Queue.quiet⟩) ⟨rfl, not_mem_nil⟩ rfl

def rejected : World :=
  ((BrokerOp.nack "a" "orders" false ⟨1, ⟨1, []⟩, 1, Queue.quiet⟩).program.run delivered).2

theorem rejected_runs : BrokerOp.Runs (World.fresh 0) ["a"] rejected := by
  refine delivered_runs.then (.nack "a" "orders" false ⟨1, ⟨1, []⟩, 1, Queue.quiet⟩) ?_ rfl
  intro _ dlq hdlq
  have hnone : delivered.queue? (dlqName "orders") = none := by decide
  rw [hnone] at hdlq
  cases hdlq

/-- The rejected message is live in the DLQ and stored there. -/
theorem storage_mirrors_queues_rejected :
    rejected.liveIds "orders.dlq" = ["a"] ∧
      (rejected.disk.storage.messages.find? ("orders.dlq", "a")).isSome := by
  have hlive : rejected.liveIds "orders.dlq" = ["a"] := by decide
  refine ⟨hlive, (((storage_mirrors_queues rejected_runs).2.1 "orders.dlq").2.1 "a").mpr ?_⟩
  rw [hlive]
  exact List.mem_cons_self

end QwerQ
