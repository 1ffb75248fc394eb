import QwerQ.Broker.Publish
import QwerQ.Broker.Imprint
import QwerQ.Queue.Registry

/-! A publish under an id that the client has chosen and that a message of the queue has
already. Pending messages are kept by position, records and messages in flight by id, so
that the new message takes the old one's place in the storage at once and in the ledger
as soon as both have been delivered. -/
namespace QwerQ
open List

namespace Queue
variable {q : Queue}

/-- Deliveries and settlements: calls that accept no message, and that take one away only
by settling it. -/
def attends (_ : Queue) : Op → Prop
  | .dequeue _ _ | .removeConsumer _ | .receive _ | .ack _ _ _ | .nack _ _ _ _ _ _
  | .requeueExpired _ _ | .extendVisibility _ _ _ => True
  | _ => False

/-- Of two messages with one id, each is pending or in flight until it is settled. -/
def KeepsTwo (id : String) (q : Queue) : Prop := ∀ history q', Runs attends q history q' →
  2 ≤ (q'.live.map Message.id).count id + (settledIds history).count id

theorem settledIds_sent (sends : List Delivery) : settledIds (sends.map .sent) = [] := by
  simp [settledIds]

theorem dequeue_drains (h : q.Routed) :
    ∃ pass q', q.dequeue 0 pass = .ok (q', q.made) ∧ q'.messages = [] := by
  let joined : Queue := { q with consumers := q.consumers ++ [⟨q.made, 0, none⟩], made := q.made + 1 }
  have ⟨pass, q', hpass, hnil⟩ := tryDeliver_drains (show joined.Routed from h.join _ _)
    (append_ne_nil_of_right_ne_nil _ nofun)
  exact ⟨pass, q', by rw [dequeue, hpass]; rfl, hnil⟩

theorem not_keepsTwo (h : q.Routed) (id : String) : ¬ q.KeepsTwo id := by
  intro hkeeps
  obtain ⟨pass, q', hdequeue, hnil⟩ := dequeue_drains h
  have happly : q.apply (.dequeue 0 pass) = .ok (q', []) := by
    rw [apply, hdequeue]
    rfl
  have hcount := hkeeps _ q' (.next .start (.call (.dequeue 0 pass) trivial happly (by simp)))
  rw [nil_append, nil_append, settledIds_sent, live, hnil, nil_append, count_nil] at hcount
  have hone := nodup_iff_count_le_one.mp q'.inFlight.nodup id
  omega

end Queue

open Process
variable {w w' : World} {q : Queue} {req : PublishRequest} {m : Message}

structure Collides (req : PublishRequest) (m : Message) (q : Queue) (w : World) : Prop where
  queue : w.queue? req.queue = some q
  routed : q.Routed
  live : m ∈ q.live
  id : req.messageId = m.id
  chosen : req.messageId ≠ ""

/-- The message has its record still, and neither it nor the new one is lost later on. -/
structure Spares (m : Message) (name : String) (w w' : World) : Prop where
  record : w.HasRecord name m.id → ∃ record, w'.disk.storage.messages.find? (name, m.id) = some record ∧
    record.payload = m.payload ∧ record.headers = m.headers
  both : (w'.queueAt name).KeepsTwo m.id

theorem Collides.stores_iff (h : Collides req m q w) : w.Stores req.queue ↔ ¬ w.disk.fails 0 := by
  have hcalls : creationCalls req.queue w = 0 := by rw [creationCalls, h.queue]; rfl
  simp [World.Stores, hcalls]

/-- Both messages are safe only where the publish is refused: by the memory limit, by its
idempotency key, by the storage or by a full queue. -/
theorem handlePublish_spares_iff (env : PublishEnv) (h : Collides req m q w) :
    ((handlePublish req env).Returns w fun result w' =>
        result.toOption.isSome → Spares m req.queue w w') ↔
      Refused req env w ∨ w.disk.fails 0 ∨ q.full = true := by
  have hat : w.queueAt req.queue = q := World.queueAt_of_some h.queue
  have hrefused {post : World → Prop}
      (hret : (handlePublish req env).Returns w fun result w' => result.toOption = none ∧ post w') :
      (handlePublish req env).Returns w fun result w' =>
        result.toOption.isSome → Spares m req.queue w w' := by
    refine hret.mono fun result w' ⟨hnone, _⟩ hsome => ?_
    rw [hnone] at hsome
    cases hsome
  constructor
  · intro hspares
    by_contra haccepts
    simp only [not_or, Bool.not_eq_true] at haccepts
    have ⟨hchecked, hstores, hroom⟩ := haccepts
    have hkeyed := (h.stores_iff.mpr hstores).keyed req env
    have hroom' : ((w.keyed req env).queueAt (publishMessage req env).queue).full = false := by
      rwa [World.queueAt_keyed, show w.queueAt (publishMessage req env).queue = q from hat]
    rw [returns_handlePublish env hchecked,
      returns_storeAndEnqueue_room hkeyed.creates (hkeyed _ (Nat.le_refl _)) hroom'] at hspares
    have ⟨q', hdirect, hspared⟩ := hspares
    have hfound := (createQueue_readies hkeyed.creates).2.found
    have hat' := World.queueAt_of_some (World.queue?_put q' hfound (Queue.enqueueDirect_name hdirect))
    have hrouted : q'.Routed := by
      refine (Queue.enqueueDirect_undisturbed hdirect).routed ?_
      rw [World.queueAt_keyed, show w.queueAt (publishMessage req env).queue = q from hat]
      exact h.routed
    refine Queue.not_keepsTwo hrouted m.id ?_
    rw [← hat']
    exact (hspared rfl).both
  · intro hrejects
    by_cases hchecked : Refused req env w
    · exact hrefused (handlePublish_refused env hchecked)
    by_cases hstores : w.disk.fails 0
    · exact hrefused (handlePublish_unstored env hchecked (mt h.stores_iff.mp (not_not.mpr hstores)))
    · have hfull : q.full = true := (hrejects.resolve_left hchecked).resolve_left hstores
      exact hrefused (handlePublish_full env hchecked (h.stores_iff.mpr hstores) (hat ▸ hfull))

/-- A full queue refuses the message. -/
theorem handlePublish_spares_full :
    (handlePublish (newOrder "a") publishing).Returns fullOrders fun result w' =>
      result.toOption.isSome → Spares (Queue.order "a") "orders" fullOrders w' := by
  have hcollides : Collides (newOrder "a") (Queue.order "a")
      { Queue.new "orders" with messages := [Queue.order "a"], maxSize := 1 } fullOrders :=
    ⟨rfl, fun _ hmem => absurd hmem List.not_mem_nil, List.mem_singleton_self _, rfl, by decide⟩
  exact (handlePublish_spares_iff publishing hcollides).mpr (.inr (.inr rfl))

def heldOrder : World :=
  ((World.opened 0 fun _ => none).setQueue
    { Queue.new "orders" with messages := [Queue.order "a"] }).store
      (Storage.saveMessage (Queue.order "a"))

/-- A second order of the same id replaces the record of the first. A consumer is sent
both, and one of them is left in flight though none was acked. -/
theorem handlePublish_replaces_message : ∃ w' q',
    (handlePublish (newOrder "a") publishing).run heldOrder = (.ok (.ok "a"), w') ∧
      (w'.disk.storage.messages.find? ("orders", "a")).map Message.payload = some [2] ∧
      (w'.queueAt "orders").live.map Message.payload = [[1], [2]] ∧
      (w'.queueAt "orders").dequeue 30 ⟨0, [true, true]⟩ = .ok (q', 0) ∧
      q'.sent.map (fun delivery => delivery.msg.payload) = [[1], [2]] ∧
      q'.live.map Message.payload = [[2]] ∧
      ¬Spares (Queue.order "a") "orders" heldOrder w' := by
  refine ⟨_, _, rfl, rfl, rfl, rfl, rfl, rfl, fun hspares => ?_⟩
  have ⟨record, hfound, hpayload, _⟩ := hspares.record rfl
  cases hfound
  cases hpayload

end QwerQ
