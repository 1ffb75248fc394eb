import QwerQ.Broker.Mirror

/-! Every operation keeps the storage a mirror of the queues. -/
namespace QwerQ
open Process Function Queue World
variable {w : World} {name id source : String} {q q' : Queue} {msg : Message} {used : List String}
  {env : NackEnv} {post : Bool × Option Err → World → Prop} {rest : List Message}

theorem Mirrors.stored_eq (h : Mirrors used w) (key : String × String) :
    w.disk.storage.table key = w.table key :=
  congrFun h.holds.stored key

theorem Queue.becomes_refl (h : q.Orderly) : Queue.Becomes q q.table q := ⟨h, rfl, rfl⟩

variable {table : String × String → Option Body} {requeue : Bool}

theorem Placed.alone
    (h : Placed used table) (hheld : (table (source, id)).isSome) (other : String) :
    Function.update table (source, id) none (other, id) = none := by
  rw [update_apply]
  split
  · rfl
  · rename_i hother
    cases hfound : table (other, id) with
    | none => rfl
    | some body =>
      have hsame := h.lone (by rw [hfound]; rfl) hheld
      exact absurd (by rw [hsame]) hother

theorem Placed.move {target : String} {body : Body}
    (h : Placed used table) (hheld : (table (source, id)).isSome) :
    Placed used (Function.update (Function.update table (source, id) none) (target, id)
      (some body)) :=
  (h.erase source id).insert (h.alone hheld) (h.used hheld)

theorem saveAndEnqueue_mirrors (env : Env) (h : Mirrors used w)
    (hq : w.queue? msg.queue = some q) (hfree : ∀ other, w.table (other, msg.id) = none)
    (hused : msg.id ∈ used) :
    (saveAndEnqueue (some msg.queue) msg env).Returns w fun _ w' => Mirrors used w' := by
  have horderly := h.holds.orderly hq
  have hsaved := h.holds.saveMessage msg
  have hheld : q.table msg.id = none := by rw [← table_of_queue? hq, hfree]
  simp only [saveAndEnqueue, saveMessage, deleteMessage, enqueue, returns_bind,
    returns_write_sound h.holds.sound]
  rw [returns_lockedPure (show (w.store _).queue? msg.queue = some q from hq)]
  by_cases hfull : q.full = true
  · -- The queue is full: the record that was just written is deleted again.
    refine ⟨q, _, by rw [Queue.enqueue, if_pos hfull], ?_⟩
    have hsame := hsaved.setQueue_same hq (becomes_refl horderly)
    have hdeleted := hsame.deleteMessage msg.queue msg.id
    simp only [returns_bind, returns_write_sound hsame.sound]
    rw [update_idem, ← hfree msg.queue, update_eq_self] at hdeleted
    exact Mirrors.of_holds hdeleted h.placed
  · have ⟨q', hdirect, hq'⟩ := enqueueDirect_becomes env horderly hheld
    refine ⟨q', none, by rw [Queue.enqueue, if_neg hfull, hdirect]; rfl, ?_⟩
    exact Mirrors.of_holds (hsaved.setQueue_update hq hq') (h.placed.insert hfree hused)

theorem handlePublish_mirrors {req : PublishRequest} {env : PublishEnv} (h : Mirrors used w)
    (hid : req.messageId = "") (hfresh : env.ulid ∉ used) :
    (handlePublish req env).Returns w fun _ w' => Mirrors (env.ulid :: used) w' := by
  have hmore {w' : World} (h' : Mirrors used w') : Mirrors (env.ulid :: used) w' :=
    ⟨h'.holds, h'.placed.mono fun _ hin => List.mem_cons_of_mem _ hin⟩
  have hpublishId : publishId req env = env.ulid := by rw [publishId, if_pos hid]
  by_cases hrefused : Refused req env w
  · exact (handlePublish_refused env hrefused).mono fun _ w' ⟨_, hsame⟩ => hsame ▸ hmore h
  have hchecked : Holds w.table w.table (w.keyed req env) := by
    refine h.holds.of_queues ?_ rfl
    unfold World.keyed Broker.checkKey
    split <;> rfl
  have ⟨hnone, hcreated, ⟨q, hq, _⟩, _⟩ := hchecked.createQueue req.queue
  rw [returns_handlePublish env hrefused, returns_storeAndEnqueue_saves hnone]
  have hmirrors := hmore (Mirrors.of_holds hcreated h.placed)
  refine (@saveAndEnqueue_mirrors _ _ (publishMessage req env) _ env.enqueue hmirrors hq ?_
    ?_).mono fun _ _ h' => h'
  · intro other
    rw [hcreated.live]
    change w.table (other, publishId req env) = none
    rw [hpublishId]
    cases hfound : w.table (other, env.ulid) with
    | none => rfl
    | some body => exact absurd (h.placed.used (by rw [hfound]; rfl)) hfresh
  · change publishId req env ∈ _
    rw [hpublishId]
    exact List.mem_cons_self

theorem section_mirrors {α : Type} {label : Queue → Label} {body : Queue → Go (Queue × α)}
    (h : Mirrors used w) (hq : w.queue? name = some q)
    (hbody : ∃ q' result, body q = .ok (q', result) ∧ Queue.Becomes q q.table q') :
    (lockedPure (some name) label body).Returns w fun _ w' => Mirrors used w' := by
  have ⟨q', result, hreturns, hq'⟩ := hbody
  rw [returns_lockedPure hq]
  exact ⟨q', result, hreturns, Mirrors.of_holds (h.holds.setQueue_same hq hq') h.placed⟩

theorem handleConsume_mirrors (visibilityTimeout : UInt32) (memberID : String) (now : Time)
    (pass : Pass) (h : Mirrors used w) :
    (handleConsume name visibilityTimeout "" memberID now pass).Returns w
      fun _ w' => Mirrors used w' := by
  obtain ⟨hnone, hcreated, ⟨q, hq, _⟩, _⟩ := h.holds.createQueue name
  simp only [handleConsume, returns_bind, returns_getOrCreateQueue, hnone]
  obtain ⟨q', hdequeue, hq'⟩ :=
    dequeue_becomes (consumeTimeout visibilityTimeout) pass (hcreated.orderly hq)
  exact section_mirrors (Mirrors.of_holds hcreated h.placed) hq
    ⟨q', some q.made, by rw [hdequeue]; rfl, hq'⟩

theorem receive_mirrors (ch : Nat) (h : Mirrors used w) :
    (receive name ch).Returns w fun _ w' => Mirrors used w' := by
  simp only [receive, returns_bind, returns_getQueue]
  cases hq : w.queue? name with
  | none => exact h
  | some q =>
    exact section_mirrors h hq ⟨_, _, rfl, receive_becomes ch (h.holds.orderly hq)⟩

theorem handleUnsubscribe_mirrors (memberID : String) (ch : Option Nat) (clock : String → Time)
    (order : List String) (pass : Pass) (h : Mirrors used w) :
    (handleUnsubscribe name "" memberID ch clock order pass).Returns w
      fun _ w' => Mirrors used w' := by
  refine returns_lookup (fun _ => h) fun q hq => ?_
  rw [if_neg (not_not_intro rfl)]
  cases ch with
  | none => exact h
  | some ch =>
    refine returns_bind.mpr ?_
    exact section_mirrors h hq ⟨_, _, rfl, removeConsumer_becomes ch (h.holds.orderly hq)⟩

theorem handleExtendVisibility_mirrors (extensionSeconds : UInt32) (now : Time)
    (h : Mirrors used w) :
    (handleExtendVisibility id name extensionSeconds now).Returns w fun _ w' => Mirrors used w' := by
  refine returns_lookup (fun _ => h) fun q hq => returns_bind.mpr ?_
  refine (section_mirrors h hq ⟨_, _, rfl, extendVisibility_becomes _ now
    (h.holds.orderly hq)⟩).mono fun deadline w' h' => ?_
  split <;> exact h'

theorem requeueExpired_mirrors (sweep : Sweep) (group : String → Sweep) (h : Mirrors used w) :
    (requeueExpired name sweep group).Returns w fun _ w' => Mirrors used w' := by
  simp only [requeueExpired, returns_bind, returns_getQueue]
  cases hq : w.queue? name with
  | none => exact h
  | some q =>
    obtain ⟨q', hexpired, hq'⟩ := requeueExpired_becomes sweep group (h.holds.orderly hq)
    exact section_mirrors h hq ⟨q', (), by rw [hexpired]; rfl, hq'⟩

theorem handleAck_mirrors (pass : Pass) (h : Mirrors used w) :
    (handleAck id name "" pass).Returns w fun _ w' => Mirrors used w' := by
  refine returns_lookup (fun _ => h) fun q hq => ?_
  have horderly := h.holds.orderly hq
  rw [if_neg (not_not_intro rfl), returns_locked hq]
  cases hfind : q.inFlight.find? id with
  | none =>
    refine ⟨q, w.disk, (false, none), by rw [Queue.ackWithHook, hfind], ?_⟩
    exact Mirrors.of_holds (h.holds.setQueue_same hq (becomes_refl horderly)) h.placed
  | some msg =>
    have ⟨q', hpass, hq'⟩ := settle_deliver_becomes pass horderly hfind
    refine ⟨q', (w.store (Storage.deleteMessage name id)).disk, (true, none), ?_, ?_⟩
    · simp only [Queue.ackWithHook, hfind, deleteStored, h.holds.sound.write_eq, hpass]
      rfl
    · have hdeleted := (h.holds.setQueue_update hq hq').deleteMessage name id
      exact Mirrors.of_holds hdeleted (h.placed.erase name id)

theorem asEnqueued_body (h : q.Carries msg) : (asEnqueued msg q none).body = msg.body := by
  rw [asEnqueued, if_neg (by simp)]
  rcases h with hlast | ⟨hnil, entry, hfind, hbody⟩
  · rw [hlast]
    rfl
  · rw [hnil, hfind]
    exact hbody

theorem moveToDLQ_mirrors
    (h : Holds table (Function.update table (name, msg.id) none) w) (hplaced : Placed used table)
    (hheld : (table (name, msg.id)).isSome)
    (hroom : ∀ dlq, w.queue? (dlqName name) = some dlq → dlq.full = false) :
    (moveToDLQ name msg env).Returns w fun _ w' => Mirrors used w' := by
  have hne := dlqName_ne name
  obtain ⟨hnone, hcreated, ⟨dlq, hdlq, hdlq_eq⟩, _⟩ := h.createQueue (dlqName name)
  have horderly := hcreated.orderly hdlq
  have hfull : dlq.full = false := by
    rw [hdlq_eq]
    cases hold : w.queue? (dlqName name) with
    | none => rfl
    | some old => exact hroom old hold
  have hnew : dlq.table msg.id = none := by
    rw [← table_of_queue? hdlq, hcreated.live, hplaced.alone hheld]
  simp only [moveToDLQ, deleteMessage, saveMessage, returns_bind, returns_getOrCreateQueue, hnone]
  let moved : Message := { msg with queue := dlqName name, visibleAt := env.moved }
  obtain ⟨q', hdirect, hq'⟩ := enqueueDirect_becomes env.enqueue horderly
    (show dlq.table moved.id = none from hnew)
  have hbody : (asEnqueued moved q' none).body = moved.body :=
    asEnqueued_body (enqueueDirect_carries hdirect)
  have hqueued := hcreated.setQueue_update hdlq hq'
  have hdeleted := hqueued.deleteMessage name msg.id
  have hsaved := hdeleted.saveMessage (asEnqueued moved q' none)
  refine (returns_lockedPure hdlq).mpr ⟨q', asEnqueued moved q' none, ?_, ?_⟩
  · simp only [Queue.enqueue, hfull, Bool.false_eq_true, if_false]
    rw [hdirect]
    rfl
  · rw [returns_write_sound hqueued.sound, returns_write_sound hdeleted.sound]
    have hkey : ((asEnqueued moved q' none).queue, (asEnqueued moved q' none).id) =
        (dlqName name, msg.id) :=
      Prod.ext (congrArg Body.queue hbody) (congrArg Body.id hbody)
    rw [hkey, hbody] at hsaved
    exact Mirrors.of_holds hsaved (hplaced.move hheld)

theorem returns_nackSection
    (hq : w.queue? name = some q) :
    (handleNack id name "" requeue env).Returns w post ↔
      ∃ q' disk result, q.nackWithHooks id requeue (deleteStored name id) persistRequeue env.now
          env.pass w.disk = .ok ((q', disk), result) ∧
        (settleNack name env result.1 result.2).Returns { w.setQueue q' with disk := disk } post := by
  rw [handleNack, returns_found hq, if_neg (not_not_intro rfl), returns_bind]
  exact returns_locked hq

theorem returns_handleNack
    (hq : w.queue? name = some q) (hfind : q.inFlight.find? id = some msg)
    (hverdict : nackVerdict q.failurePolicy q.maxRetries requeue msg.attempt = .toDLQ) :
    (handleNack id name "" requeue env).Returns w post ↔
      (moveToDLQ name msg env).Returns (w.setQueue { q with inFlight := q.inFlight.erase id })
        fun _ w' => post (true, none) w' := by
  rw [returns_nackSection hq]
  simp only [Queue.nackWithHooks, hfind, hverdict, Queue.nackToDLQ, Except.ok.injEq, Prod.mk.injEq]
  constructor
  · rintro ⟨_, _, _, ⟨⟨rfl, rfl⟩, rfl⟩, hrest⟩
    exact returns_bind.mp hrest
  · intro hrest
    exact ⟨_, _, _, ⟨⟨rfl, rfl⟩, rfl⟩, returns_bind.mpr hrest⟩

theorem nackRequeue_mirrors (env : NackEnv) (h : Mirrors used w) (hq : w.queue? name = some q)
    (hfind : q.inFlight.find? msg.id = some msg) :
    ∃ q' disk result, q.nackRequeue msg.id persistRequeue env.now env.pass msg w.disk =
        .ok ((q', disk), (⟨true, some result, false, false⟩, none)) ∧
      Mirrors used { w.setQueue q' with disk := disk } := by
  have horderly := h.holds.orderly hq
  have ⟨q', hpass, hq'⟩ := requeue_becomes env.now env.pass horderly hfind
  have hlive : w.table (name, msg.id) = some msg.body := by
    rw [table_of_queue? hq, (settle_becomes horderly hfind).2]
  refine ⟨q', (w.store (Storage.saveMessage (Queue.renewed env.now msg))).disk,
    Queue.renewed env.now msg, ?_, ?_⟩
  · simp only [Queue.nackRequeue, persistRequeue, h.holds.sound.write_eq]
    change (do
      let q ← Queue.tryDeliver env.pass { q with
        inFlight := q.inFlight.erase msg.id
        messages := q.messages ++ [Queue.renewed env.now msg] }
      return ((q, _), _)) = _
    rw [hpass]
    rfl
  · have hsaved := (h.holds.setQueue_same hq hq').saveMessage (Queue.renewed env.now msg)
    have hkey : ((Queue.renewed env.now msg).queue, (Queue.renewed env.now msg).id) =
        (name, msg.id) := by
      have hstored := h.stored_eq (name, msg.id)
      rw [hlive] at hstored
      exact Prod.ext (Storage.table_key hstored).1 rfl
    rw [hkey, renewed_body, ← hlive, update_eq_self] at hsaved
    exact Mirrors.of_holds hsaved h.placed

theorem nackToDLQ_mirrors (env : NackEnv) (h : Mirrors used w)
    (hq : w.queue? name = some q) (hfind : q.inFlight.find? msg.id = some msg)
    (hverdict : nackVerdict q.failurePolicy q.maxRetries requeue msg.attempt = .toDLQ)
    (hroom : ∀ dlq, w.queue? (dlqName name) = some dlq → dlq.full = false) :
    (handleNack msg.id name "" requeue env).Returns w fun _ w' => Mirrors used w' := by
  have ⟨hsettled, hheld⟩ := settle_becomes (h.holds.orderly hq) hfind
  have hgone := h.holds.setQueue_update hq hsettled
  rw [returns_handleNack hq hfind hverdict]
  refine moveToDLQ_mirrors hgone h.placed ?_ fun dlq hdlq => ?_
  · rw [table_of_queue? hq, hheld]
    rfl
  · have hother : dlqName name ≠ Queue.name { q with inFlight := q.inFlight.erase msg.id } :=
      queue?_name hq ▸ dlqName_ne name
    exact hroom dlq ((queue?_setQueue_of_ne w hother).symm.trans hdlq)

theorem handleNack_mirrors (requeue : Bool) (env : NackEnv) (h : Mirrors used w)
    (hroom : w.verdict name "" id requeue = some .toDLQ →
      ∀ dlq, w.queue? (dlqName name) = some dlq → dlq.full = false) :
    (handleNack id name "" requeue env).Returns w fun _ w' => Mirrors used w' := by
  cases hq : w.queue? name with
  | none =>
    simp only [handleNack, returns_bind, returns_getQueue, hq]
    exact h
  | some q =>
    have horderly := h.holds.orderly hq
    cases hfind : q.inFlight.find? id with
    | none =>
      rw [returns_nackSection hq]
      refine ⟨q, w.disk, (⟨false, none, false, false⟩, none), by rw [Queue.nackWithHooks, hfind], ?_⟩
      exact Mirrors.of_holds (h.holds.setQueue_same hq (becomes_refl horderly)) h.placed
    | some msg =>
      have hid : id = msg.id := (KeyedMap.find?_eq_some_iff.mp hfind).2.symm
      subst hid
      cases hverdict : nackVerdict q.failurePolicy q.maxRetries requeue msg.attempt with
      | toDLQ =>
        refine nackToDLQ_mirrors env h hq hfind hverdict (hroom ?_)
        rw [World.verdict, hq, Option.bind_some, inFlightIn_queue, hfind, Option.map_some, hverdict]
      | drop =>
        rw [returns_nackSection hq]
        refine ⟨{ q with inFlight := q.inFlight.erase msg.id },
          (w.store (Storage.deleteMessage name msg.id)).disk, (⟨true, some msg, false, true⟩, none),
          ?_, ?_⟩
        · simp only [Queue.nackWithHooks, hfind, hverdict, Queue.nackDrop, deleteStored,
            h.holds.sound.write_eq]
          rfl
        · have hsettled := (settle_becomes horderly hfind).1
          have hdeleted := (h.holds.setQueue_update hq hsettled).deleteMessage name msg.id
          exact Mirrors.of_holds hdeleted (h.placed.erase name msg.id)
      | requeue =>
        obtain ⟨q', disk, result, hbody, hmirrors⟩ := nackRequeue_mirrors env h hq hfind
        rw [returns_nackSection hq]
        refine ⟨q', disk, (⟨true, some result, false, false⟩, none), ?_, hmirrors⟩
        simp only [Queue.nackWithHooks, hfind, hverdict, hbody]

theorem purgeQueue_mirrors (h : Mirrors used w) :
    (purgeQueue name).Returns w fun _ w' => Mirrors used w' := by
  refine returns_lookup (fun _ => h) fun q hq => ?_
  simp only [deleteQueueMessages, returns_bind, returns_write_sound h.holds.sound]
  have hdeleted := h.holds.deleteQueueMessages name
  have hq' := purge_becomes (h.holds.orderly hq)
  refine (returns_lockedPure (show (w.store _).queue? name = some q from hq)).mpr
    ⟨q.purge.1, q.purge.2, rfl, ?_⟩
  have hpurged := hdeleted.setQueue hq hq'
  have hcleared : (World.setQueue q.purge.1 (w.store (Storage.deleteQueueMessages name))).table =
      fun key => if key.1 = name then none else w.table key := by
    rw [table_setQueue, hq'.table, hq'.name, queue?_name hq]
    rfl
  rw [hcleared] at hpurged
  exact Mirrors.of_holds hpurged (h.placed.clear name)

/-- The state in which the record of a retried message has moved. -/
def World.retrying (name : String) (msg : Message) (now : Time) (w : World) : World :=
  World.store (Storage.deleteMessage (dlqName name) msg.id)
    (World.store (Storage.saveMessage (retryCopy name msg now)) w)

structure RetryReady (used : List String) (name : String) (msg : Message) (q : Queue) (w : World) :
    Prop where
  mirrors : Mirrors used w
  queue : w.queue? name = some q
  held : w.table (dlqName name, msg.id) = some msg.body

section Retry
variable {now : Time} {dlq : Queue}

theorem RetryReady.key (h : RetryReady used name msg q w) : msg.queue = dlqName name := by
  have hstored := h.mirrors.stored_eq (dlqName name, msg.id)
  rw [h.held] at hstored
  exact (Storage.table_key hstored).1

theorem RetryReady.free (h : RetryReady used name msg q w) : w.table (name, msg.id) = none := by
  have hheld : (w.table (dlqName name, msg.id)).isSome := by rw [h.held]; rfl
  have halone := h.mirrors.placed.alone hheld name
  have hne : (name, msg.id) ≠ (dlqName name, msg.id) := by simpa using (dlqName_ne name).symm
  rwa [update_of_ne hne] at halone

theorem RetryReady.new (h : RetryReady used name msg q w) : q.table msg.id = none := by
  rw [← table_of_queue? h.queue, h.free]

theorem RetryReady.moved (h : RetryReady used name msg q w) (now : Time) :
    Holds (Function.update (Function.update w.table (dlqName name, msg.id) none) (name, msg.id)
      (some (retryCopy name msg now).body)) w.table (w.retrying name msg now) := by
  have hmoved := (h.mirrors.holds.saveMessage (retryCopy name msg now)).deleteMessage
    (dlqName name) msg.id
  have hkeys : ((retryCopy name msg now).queue, (retryCopy name msg now).id) ≠
      (dlqName name, msg.id) := by simpa [retryCopy] using (dlqName_ne name).symm
  rwa [update_comm hkeys] at hmoved

theorem RetryReady.undone (h : RetryReady used name msg q w) (now : Time) :
    Mirrors used (World.store (Storage.deleteMessage name msg.id)
      (World.store (Storage.saveMessage msg) ((w.retrying name msg now).setQueue q))) := by
  have hne := dlqName_ne name
  have horderly := h.mirrors.holds.orderly h.queue
  have hsame := (h.moved now).setQueue_same h.queue (becomes_refl horderly)
  have hundone := (hsame.saveMessage msg).deleteMessage name msg.id
  have hback : Function.update (Function.update (Function.update (Function.update w.table
      (dlqName name, msg.id) none) (name, msg.id) (some (retryCopy name msg now).body))
      (msg.queue, msg.id) (some msg.body)) (name, msg.id) none = w.table := by
    rw [h.key, update_comm (by simpa using hne), update_idem,
      update_comm (by simpa using hne.symm), update_idem, ← h.held,
      update_eq_self, ← h.free, update_eq_self]
  rw [hback] at hundone
  exact Mirrors.of_holds hundone h.mirrors.placed

theorem retrying_dlq (msg : Message) (now : Time) (hq : w.queue? name = some q)
    (hdlq : w.queue? (dlqName name) = some dlq) (hname : q'.name = q.name) :
    ((w.retrying name msg now).setQueue q').queue? (dlqName name) = some dlq := by
  rw [queue?_setQueue_of_ne]
  · exact hdlq
  · rw [hname, queue?_name hq]
    exact dlqName_ne name

theorem RetryReady.taken (h : RetryReady used name msg q w)
    (hdlq : w.queue? (dlqName name) = some dlq) (hhead : dlq.messages = msg :: rest)
    (hq' : Queue.Becomes q (Function.update q.table msg.id (some (retryCopy name msg now).body)) q') :
    Mirrors used (((w.retrying name msg now).setQueue q').setQueue
      { dlq with messages := dlq.messages.tail }) := by
  have hne := dlqName_ne name
  have hqueued := (h.moved now).setQueue_update h.queue hq'
  have htail := (tail_becomes (h.mirrors.holds.orderly hdlq) hhead).1
  have hpopped := hqueued.setQueue_update (retrying_dlq msg now h.queue hdlq hq'.name) htail
  have hcomm : Function.update (Function.update w.table (name, msg.id)
      (some (retryCopy name msg now).body)) (dlqName name, msg.id) none =
      Function.update (Function.update w.table (dlqName name, msg.id) none) (name, msg.id)
        (some (retryCopy name msg now).body) :=
    update_comm (by simpa using hne.symm) _ _ _
  rw [hcomm] at hpopped
  exact Mirrors.of_holds hpopped (h.mirrors.placed.move (by rw [h.held]; rfl))

theorem retryHead_mirrors {env : RetryEnv}
    (h : Mirrors used w) (hq : w.queue? name = some q) (hdlq : w.queue? (dlqName name) = some dlq)
    (hhead : dlq.messages = msg :: rest) :
    (retryHead name (some name) msg env).Returns w fun _ w' =>
      Mirrors used w' ∧ (w'.queue? name).isSome ∧ (w'.queue? (dlqName name)).isSome := by
  have hheld := (tail_becomes (h.holds.orderly hdlq) hhead).2
  have hready : RetryReady used name msg q w :=
    ⟨h, hq, by rw [table_of_queue? hdlq, hheld]⟩
  have hsaved := h.holds.saveMessage (retryCopy name msg env.now)
  have hq_moved : (w.retrying name msg env.now).queue? name = some q := hq
  simp only [retryHead, saveMessage, deleteMessage, enqueue, returns_bind,
    returns_write_sound h.holds.sound, returns_write_sound hsaved.sound]
  rw [← World.retrying, returns_lockedPure hq_moved]
  by_cases hfull : q.full = true
  · refine ⟨q, _, by rw [Queue.enqueue, if_pos hfull], ?_⟩
    have hsame := (hready.moved env.now).setQueue_same hq_moved (becomes_refl (h.holds.orderly hq))
    simp only [returns_bind, returns_write_sound hsame.sound,
      returns_write_sound (hsame.saveMessage msg).sound]
    exact ⟨hready.undone env.now, isSome_queue?_setQueue (by rw [hq_moved]; rfl),
      isSome_queue?_setQueue (show (w.queue? (dlqName name)).isSome from by rw [hdlq]; rfl)⟩
  · have ⟨q', hdirect, hq'⟩ := enqueueDirect_becomes env.enqueue (h.holds.orderly hq)
      (show q.table (retryCopy name msg env.now).id = none from hready.new)
    have hdlq' := retrying_dlq msg env.now hq hdlq hq'.name
    refine ⟨q', none, by rw [Queue.enqueue, if_neg hfull, hdirect]; rfl, ?_⟩
    simp only [returns_bind]
    rw [returns_lockedPure hdlq']
    exact ⟨_, (), rfl, hready.taken hdlq hhead hq',
      isSome_queue?_setQueue (isSome_queue?_setQueue (by rw [hq_moved]; rfl)),
      isSome_queue?_setQueue (by rw [hdlq']; rfl)⟩

end Retry

theorem retryLoop_mirrors {env : Nat → RetryEnv} (rounds retried : Nat) (h : Mirrors used w)
    (hq : (w.queue? name).isSome) (hdlq : (w.queue? (dlqName name)).isSome) :
    (retryLoop name (some name) env rounds retried).Returns w fun _ w' => Mirrors used w' := by
  induction rounds generalizing w retried with
  | zero => exact h
  | succ rounds ih =>
    have ⟨q, hq⟩ := Option.isSome_iff_exists.mp hq
    have ⟨dlq, hdlq⟩ := Option.isSome_iff_exists.mp hdlq
    simp only [retryLoop, returns_bind, returns_look, hdlq, Option.bind_some]
    cases hhead : dlq.messages with
    | nil => exact h
    | cons msg rest =>
      simp only [List.head?_cons, returns_bind]
      refine (retryHead_mirrors h hq hdlq hhead).mono fun err w' h' => ?_
      cases err with
      | some err => exact h'.1
      | none => exact ih (retried + 1) h'.1 h'.2.1 h'.2.2

theorem retryDLQ_mirrors (env : Nat → RetryEnv) (h : Mirrors used w) :
    (retryDLQ name env).Returns w fun _ w' => Mirrors used w' := by
  refine returns_lookup (fun _ => h) fun dlq hdlq => ?_
  have ⟨hnone, hcreated, ⟨q, hq, _⟩, hothers⟩ := h.holds.createQueue name
  simp only [returns_bind, returns_getOrCreateQueue, hnone, returns_look]
  refine retryLoop_mirrors _ 0 (Mirrors.of_holds hcreated h.placed) (by rw [hq]; rfl) ?_
  rw [hothers _ (dlqName_ne name), hdlq]
  rfl

end QwerQ
