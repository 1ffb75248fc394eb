import QwerQ.Handlers
import QwerQ.Queue.Ledger

/-! A publish that returns an error, over a storage whose calls may fail. The
record is written before the queue is asked, and taken back by a delete under the
same key. -/
namespace QwerQ
open Process
variable {w w' : World} {q : Queue} {msg : Message}

def World.ledgers (name : String) (w : World) :
    List Message × KeyedMap Message.id × KeyedMap ConsumerGroup.name :=
  let q := (w.queue? name).getD (Queue.new name)
  (q.messages, q.inFlight, q.groups)

structure SameMessages (w w' : World) : Prop where
  stored : ∀ key, w'.disk.storage.messages.find? key = w.disk.storage.messages.find? key
  ledgers : ∀ name, w'.ledgers name = w.ledgers name

theorem SameMessages.trans_iff {middle : World} (h : SameMessages w middle) :
    SameMessages middle w' ↔ SameMessages w w' := by
  constructor
  · intro h'
    exact ⟨fun key => (h'.stored key).trans (h.stored key),
      fun name => (h'.ledgers name).trans (h.ledgers name)⟩
  · intro h'
    exact ⟨fun key => (h'.stored key).trans (h.stored key).symm,
      fun name => (h'.ledgers name).trans (h.ledgers name).symm⟩

theorem sameMessages_refl (w : World) : SameMessages w w := ⟨fun _ => rfl, fun _ => rfl⟩

theorem Created.sameMessages {name : String} (h : Created name w w') : SameMessages w w' := by
  refine ⟨fun key => by rw [h.messages], fun other => ?_⟩
  by_cases hother : other = name
  · rw [hother, World.ledgers, h.queue]
    rfl
  · rw [World.ledgers, h.others other hother]
    rfl

theorem sameMessages_setQueue (hq : w.queue? q.name = some q) : SameMessages w (w.setQueue q) := by
  refine ⟨fun _ => rfl, fun other => ?_⟩
  by_cases hother : other = q.name
  · rw [hother, World.ledgers, World.queue?_setQueue_self, World.ledgers, hq]
  · rw [World.ledgers, World.queue?_setQueue_of_ne w hother]
    rfl

theorem find?_rolledBack (s : Storage) (key : String × String) :
    ((s.saveMessage msg).deleteMessage msg.queue msg.id).messages.find? key =
      if key = (msg.queue, msg.id) then none else s.messages.find? key := by
  rw [Storage.deleteMessage, KeyedMap.find?_erase, Storage.saveMessage]
  split
  · rfl
  · rename_i hkey
    exact KeyedMap.find?_insert_of_ne _ hkey

theorem rolledBack_sameMessages_iff (hledgers : ∀ name, w'.ledgers name = w.ledgers name)
    (hstored : w'.disk.storage = (w.disk.storage.saveMessage msg).deleteMessage msg.queue msg.id) :
    SameMessages w w' ↔ ¬w.HasRecord msg.queue msg.id := by
  constructor
  · intro hsame hrecord
    have hlost := hsame.stored (msg.queue, msg.id)
    rw [hstored, find?_rolledBack, if_pos rfl] at hlost
    rw [World.HasRecord, ← hlost] at hrecord
    cases hrecord
  · intro hfree
    refine ⟨fun key => ?_, hledgers⟩
    rw [hstored, find?_rolledBack]
    split
    · rename_i hkey
      rw [World.HasRecord, Bool.not_eq_true, Option.isSome_eq_false_iff,
        Option.isNone_iff_eq_none] at hfree
      rw [hkey, hfree]
    · rfl

def Err.isJoined : Err → Bool
  | .joined _ _ => true
  | _ => false

theorem saveAndEnqueue_sameMessages_iff {env : Env} {err : Err} (hpresent : w.disk.present = true)
    (hq : w.queue? msg.queue = some q)
    (hret : (saveAndEnqueue (some msg.queue) msg env).Returns w fun result s =>
      result = some err ∧ s = w')
    (hrollback : err.isJoined = false) :
    SameMessages w w' ↔
      ¬(q.full = true ∧ w.disk.faults 0 = none ∧ w.HasRecord msg.queue msg.id) := by
  simp only [saveAndEnqueue, saveMessage, returns_bind, returns_write] at hret
  cases hfault : w.disk.faults 0 with
  | some text =>
    simp only [Disk.write_failed hpresent hfault, pure_eq, returns_done] at hret
    rw [← hret.2]
    refine iff_of_true ⟨fun _ => rfl, fun _ => rfl⟩ ?_
    rintro ⟨_, hnone, _⟩
    cases hnone
  | none =>
    have hsaved : ({ w with disk := w.disk.called (w.disk.storage.saveMessage msg) } : World).queue?
        msg.queue = some q := hq
    simp only [Disk.write_succeeded hpresent hfault, enqueue, returns_bind,
      returns_lockedPure hsaved] at hret
    obtain ⟨q', answer, henqueue, hrest⟩ := hret
    cases hfull : q.full with
    | false =>
      simp only [Queue.enqueue, hfull, Bool.false_eq_true, if_false, Go.bind_eq_ok, Go.pure_eq] at henqueue
      obtain ⟨_, _, haccepted⟩ := henqueue
      cases haccepted
      cases hrest.1
    | true =>
      simp only [Queue.enqueue, hfull, if_true, Except.ok.injEq, Prod.mk.injEq] at henqueue
      obtain ⟨hsame, hanswer⟩ := henqueue
      subst hsame hanswer
      simp only [deleteMessage, returns_bind, returns_write, World.setQueue_disk, Disk.write,
        Disk.called, hpresent, if_true] at hrest
      cases hfailed : w.disk.faults (0 + 1) with
      | some text =>
        simp only [hfailed] at hrest
        cases hrest.1
        cases hrollback
      | none =>
        simp only [hfailed] at hrest
        rw [← hrest.2]
        simp only [true_and]
        exact rolledBack_sameMessages_iff (sameMessages_setQueue (World.queue?_name hq ▸ hq)).ledgers rfl

/-- The publish replaces a record of the same queue and id, and the queue then
refuses the message. -/
structure Overwrites (req : PublishRequest) (env : PublishEnv) (w : World) : Prop where
  memory : w.broker.checkMemory req env.alloc = none
  key : (w.broker.checkKey req.idempotencyKey env.checked).1 = none
  full : ∃ q, w.queue? req.queue = some q ∧ q.full = true
  saved : w.disk.faults 0 = none
  record : w.HasRecord req.queue (publishId req env)

theorem storeAndEnqueue_sameMessages_iff (msg : Message) {env : Env} {err : Err}
    (hpresent : w.disk.present = true)
    (hret : (storeAndEnqueue msg env).Returns w fun result s => result = .error err ∧ s = w')
    (hrollback : err.isJoined = false) :
    SameMessages w w' ↔ ¬((∃ q, w.queue? msg.queue = some q ∧ q.full = true) ∧
      w.disk.faults 0 = none ∧ w.HasRecord msg.queue msg.id) := by
  by_cases hok : (w.queue? msg.queue).isSome ∨ w.disk.faults 0 = none
  · obtain ⟨hnone, hcreated⟩ := createQueue_created hpresent hok
    rw [returns_storeAndEnqueue_saves hnone] at hret
    have hret : (saveAndEnqueue (some msg.queue) msg env).Returns (createQueue msg.queue w).2
        fun result s => result = some err ∧ s = w' := by
      refine hret.mono fun result s hresult => ?_
      cases result with
      | none => cases hresult.1
      | some failure => exact ⟨congrArg some (Except.error.inj hresult.1), hresult.2⟩
    rw [← hcreated.sameMessages.trans_iff,
      saveAndEnqueue_sameMessages_iff hcreated.present hcreated.queue hret hrollback, not_iff_not,
      World.HasRecord, hcreated.messages, hcreated.faults]
    cases hq : w.queue? msg.queue with
    | some q => simp [creationCalls, hq, World.HasRecord]
    | none =>
      refine iff_of_false (fun h => by cases h.1) ?_
      rintro ⟨⟨_, hsome, _⟩, _⟩
      cases hsome
  · simp only [not_or, Bool.not_eq_true, Option.isSome_eq_false_iff, Option.isNone_iff_eq_none] at hok
    obtain ⟨text, hfault⟩ := Option.ne_none_iff_exists'.mp hok.2
    simp only [storeAndEnqueue, returns_bind, returns_getOrCreateQueueWithError,
      createQueue_failed hpresent hok.1 hfault] at hret
    rw [← hret.2]
    exact iff_of_true ⟨fun _ => rfl, fun _ => rfl⟩ fun h => hok.2 h.2.1

/-- A publish that returns an error and took back what it had written has changed no
message exactly if it has not replaced a record. -/
theorem handlePublish_sameMessages_iff {req : PublishRequest} {env : PublishEnv} {err : Err}
    (hpresent : w.disk.present = true)
    (hrun : (handlePublish req env).run w = (.ok (.error err), w'))
    (hrollback : err.isJoined = false) : SameMessages w w' ↔ ¬Overwrites req env w := by
  have hret : (handlePublish req env).Returns w fun result s => result = .error err ∧ s = w' :=
    returns_iff.mpr ⟨_, _, hrun, rfl, rfl⟩
  by_cases hrefused : Refused req env w
  · have ⟨_, _, hran, _, hsame⟩ := returns_iff.mp (handlePublish_refused env hrefused)
    cases hrun.symm.trans hran
    rw [hsame]
    exact iff_of_true (sameMessages_refl w) fun h =>
      hrefused.elim (fun hmemory => hmemory h.memory) fun hkey => hkey h.key
  have hchecked : SameMessages w (w.keyed req env) :=
    ⟨fun _ => rfl, fun name => by rw [World.ledgers, World.queue?_keyed, World.ledgers]⟩
  have hpresent : (w.keyed req env).disk.present = true := hpresent
  have ⟨hmemory, hkey⟩ := not_or.mp hrefused
  rw [returns_handlePublish env hrefused] at hret
  rw [← hchecked.trans_iff,
    storeAndEnqueue_sameMessages_iff (publishMessage req env) hpresent hret hrollback, not_iff_not,
    World.queue?_keyed]
  constructor
  · rintro ⟨hfull, hsaved, hrecord⟩
    exact ⟨not_not.mp hmemory, not_not.mp hkey, hfull, hsaved, hrecord⟩
  · intro h
    exact ⟨h.full, h.saved, h.record⟩

def fullOrders : World where
  broker := { Broker.new 0 with
    queues := (∅ : KeyedMap Queue.name).insert
      { Queue.new "orders" with messages := [Queue.order "a"], maxSize := 1 } }
  disk := ⟨true, Storage.empty.saveMessage (Queue.order "a"), fun _ => none⟩

def newOrder (messageId : String) : PublishRequest := ⟨"orders", [2], ∅, messageId, "", ""⟩

def publishing : PublishEnv := ⟨0, 0, "b", 0, Queue.quiet⟩

/-- An order under a generated id is refused without a trace. -/
theorem handlePublish_sameMessages_fresh :
    ∃ w', (handlePublish (newOrder "") publishing).run fullOrders =
      (.ok (.error .queueFull), w') ∧ SameMessages fullOrders w' := by
  have ⟨w', hrun⟩ : ∃ w', (handlePublish (newOrder "") publishing).run fullOrders =
      (.ok (.error .queueFull), w') := ⟨_, rfl⟩
  have hfree : ¬fullOrders.HasRecord "orders" "b" := by decide
  exact ⟨w', hrun, (handlePublish_sameMessages_iff rfl hrun rfl).mpr fun h => hfree h.record⟩

/-- An order under the id of the stored one deletes that one's record. -/
theorem handlePublish_deletes_stored :
    ∃ w', (handlePublish (newOrder "a") publishing).run fullOrders =
      (.ok (.error .queueFull), w') ∧ ¬SameMessages fullOrders w' := by
  refine ⟨_, rfl, fun h => ?_⟩
  have hlost := h.stored ("orders", "a")
  revert hlost
  decide

end QwerQ
