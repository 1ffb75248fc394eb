import QwerQ.Broker.Durability

/-! The move of a rejected message to its DLQ, over a storage whose calls may
fail. The handler ignores what the DLQ and the storage answer, so the move is
complete only where each of them agrees. -/
namespace QwerQ
open Process
variable {w : World} {name id : String} {q : Queue} {msg : Message} {env : NackEnv}

def deadLetter (name : String) (msg : Message) (now : Time) : Message :=
  { msg with queue := dlqName name, visibleAt := now }

def deadBody (name : String) (msg : Message) : Body := { msg.body with queue := dlqName name }

def World.dlq (name : String) (w : World) : Queue :=
  (w.queue? (dlqName name)).getD (Queue.new (dlqName name))

structure MovedToDLQ (name : String) (msg : Message) (w : World) : Prop where
  live : ∃ dlq, w.queue? (dlqName name) = some dlq ∧ deadBody name msg ∈ dlq.ledger
  stored : w.disk.storage.table (dlqName name, msg.id) = some (deadBody name msg)
  gone : ∀ q, w.queue? name = some q → msg.id ∉ q.live.map Message.id
  unstored : w.disk.storage.table (name, msg.id) = none

structure LeftInFlight (name : String) (msg : Message) (w : World) : Prop where
  live : ∃ q, w.queue? name = some q ∧ q.inFlight.find? msg.id = some msg
  stored : w.disk.storage.table (name, msg.id) = some msg.body

def AllOrNothing (name : String) (msg : Message) (result : Bool × Option Err) (w : World) : Prop :=
  result = (true, none) ∧ MovedToDLQ name msg w ∨ result.2.isSome ∧ LeftInFlight name msg w

/-- What the move needs: the DLQ can be created; it is not full and the pass of no group of
it panics, or it holds the message already; no pending message of the queue has the
same id; and each of the two calls succeeds or has nothing to do. -/
structure CanMove (name : String) (msg : Message) (env : NackEnv) (q : Queue) (w : World) : Prop where
  created : w.Gets (dlqName name)
  accepted : if (w.dlq name).full then deadBody name msg ∈ (w.dlq name).ledger
    else (w.dlq name).Admits env.enqueue
  alone : msg.id ∉ q.messages.map Message.id
  deleted : w.disk.faults (creationCalls (dlqName name) w) = none ∨
    w.disk.storage.table (name, msg.id) = none
  saved : w.disk.faults (creationCalls (dlqName name) w + 1) = none ∨
    w.disk.storage.table (dlqName name, msg.id) = some (deadBody name msg)

/-- What the DLQ's `Enqueue` leaves: the DLQ, and the message as it then stands. -/
inductive Offered (moved : Message) (env : Env) (dlq : Queue) : Queue → Message → Prop where
  | refused : dlq.full = true → Offered moved env dlq dlq moved
  | accepted {dlq' : Queue} : dlq.full = false → dlq.enqueueDirect moved env = .ok dlq' →
      Offered moved env dlq dlq' (asEnqueued moved dlq' none)

section Offered
variable {moved final : Message} {enqueueEnv : Env} {dlq dlq' : Queue}

theorem offered_iff :
    (do
      let (q, err) ← dlq.enqueue moved enqueueEnv
      return (q, asEnqueued moved q err)) = (.ok (dlq', final) : Go (Queue × Message)) ↔
    Offered moved enqueueEnv dlq dlq' final := by
  cases hfull : dlq.full with
  | true =>
    simp only [Queue.enqueue, hfull, if_true]
    constructor
    · rintro ⟨⟩
      exact .refused hfull
    · rintro (_ | ⟨hnot, _⟩)
      · rfl
      · rw [hfull] at hnot
        cases hnot
  | false =>
    simp only [Queue.enqueue, hfull, Bool.false_eq_true, if_false, Go.bind_eq_ok, Go.pure_eq]
    constructor
    · rintro ⟨_, ⟨next, hdirect, ⟨⟩⟩, ⟨⟩⟩
      exact .accepted hfull hdirect
    · rintro (hnot | ⟨_, hdirect⟩)
      · rw [hfull] at hnot
        cases hnot
      · exact ⟨_, ⟨_, hdirect, rfl⟩, rfl⟩

theorem Offered.name_eq (h : Offered moved enqueueEnv dlq dlq' final) : dlq'.name = dlq.name := by
  cases h with
  | refused => rfl
  | accepted _ hdirect => exact Queue.enqueueDirect_name hdirect

theorem Offered.body (h : Offered moved enqueueEnv dlq dlq' final) : final.body = moved.body := by
  cases h with
  | refused => rfl
  | accepted _ hdirect => exact asEnqueued_body (Queue.enqueueDirect_carries hdirect)

theorem Offered.mem_ledger_iff (h : Offered moved enqueueEnv dlq dlq' final) :
    moved.body ∈ dlq'.ledger ↔ (dlq.full = true → moved.body ∈ dlq.ledger) := by
  cases h with
  | refused hfull => simp [hfull]
  | accepted hfull hdirect => simp [hfull, (Queue.enqueueDirect_carries hdirect).mem_ledger]

end Offered

def World.settled (name : String) (msg : Message) (dlq : Queue) (final : Message) (w : World) : World :=
  { w.setQueue dlq with
    disk := ((w.disk.write (Storage.deleteMessage name msg.id)).2.write
      (Storage.saveMessage final)).2 }

theorem returns_moveToDLQ {post : Unit → World → Prop} :
    (moveToDLQ name msg env).Returns w post ↔
      w.Gets (dlqName name) ∧ ∃ dlq final,
        Offered (deadLetter name msg env.moved) env.enqueue (w.dlq name) dlq final ∧
        post () ((createQueue (dlqName name) w).2.settled name msg dlq final) := by
  -- If the DLQ could not be created, the handler dereferences a nil pointer.
  rw [moveToDLQ, returns_getOrCreateQueue_bind fun w' => by
    rw [returns_bind]
    exact not_returns_locked rfl]
  refine and_congr_right fun hgets => ?_
  simp only [returns_bind, returns_lockedPure (createQueue_found hgets)]
  constructor
  · rintro ⟨dlq, final, hbody, hpost⟩
    exact ⟨dlq, final, offered_iff.mp hbody, hpost⟩
  · rintro ⟨dlq, final, hoffered, hpost⟩
    exact ⟨dlq, final, offered_iff.mpr hoffered, hpost⟩

section Settled
variable {dlq : Queue} {final : Message} (hpresent : w.disk.present = true)
  (hbody : final.body = deadBody name msg)
include hpresent hbody

theorem settled_table_queue :
    (w.settled name msg dlq final).disk.storage.table (name, msg.id) =
      if w.disk.faults 0 = none then none else w.disk.storage.table (name, msg.id) := by
  have hkey : (name, msg.id) ≠ (final.queue, final.id) := by
    intro heq
    exact dlqName_ne name ((congrArg Body.queue hbody).symm.trans (congrArg Prod.fst heq).symm)
  have hkept (s : Storage) : (s.saveMessage final).table (name, msg.id) = s.table (name, msg.id) := by
    rw [Storage.table_saveMessage, Function.update_of_ne hkey]
  rw [World.settled, Disk.write_storage (Disk.write_present hpresent), Disk.write_storage hpresent]
  split <;> split <;> simp [hkept, Storage.table_deleteMessage]

theorem settled_table_dlq :
    (w.settled name msg dlq final).disk.storage.table (dlqName name, msg.id) =
      if w.disk.faults 1 = none then some (deadBody name msg)
      else w.disk.storage.table (dlqName name, msg.id) := by
  have hkey : (final.queue, final.id) = (dlqName name, msg.id) :=
    Prod.ext (congrArg Body.queue hbody) (congrArg Body.id hbody)
  have hne : (dlqName name, msg.id) ≠ (name, msg.id) := by
    intro heq
    exact dlqName_ne name (congrArg Prod.fst heq)
  have hkept (s : Storage) : (s.deleteMessage name msg.id).table (dlqName name, msg.id) =
      s.table (dlqName name, msg.id) := by
    rw [Storage.table_deleteMessage, Function.update_of_ne hne]
  rw [World.settled, Disk.write_storage (Disk.write_present hpresent), Disk.write_storage hpresent,
    Disk.write_faults hpresent]
  split
  · rw [Storage.table_saveMessage, hkey, Function.update_self, hbody]
  · split <;> simp [hkept]

theorem movedToDLQ_settled_iff (hname : dlq.name = dlqName name) (hq : w.queue? name = some q) :
    MovedToDLQ name msg (w.settled name msg dlq final) ↔
      deadBody name msg ∈ dlq.ledger ∧ msg.id ∉ q.live.map Message.id ∧
      (w.disk.faults 0 = none ∨ w.disk.storage.table (name, msg.id) = none) ∧
      (w.disk.faults 1 = none ∨
        w.disk.storage.table (dlqName name, msg.id) = some (deadBody name msg)) := by
  have hdlq : (w.settled name msg dlq final).queue? (dlqName name) = some dlq := by
    rw [← hname]
    exact World.queue?_setQueue_self dlq w
  have hqueue : (w.settled name msg dlq final).queue? name = some q := by
    rw [← hq]
    exact World.queue?_setQueue_of_ne w (hname ▸ (dlqName_ne name).symm)
  have hunstored : (w.settled name msg dlq final).disk.storage.table (name, msg.id) = _ :=
    settled_table_queue hpresent hbody
  have hstored : (w.settled name msg dlq final).disk.storage.table (dlqName name, msg.id) = _ :=
    settled_table_dlq hpresent hbody
  constructor
  · rintro ⟨⟨found, hfound, hlive⟩, hstored', hgone, hunstored'⟩
    rw [hdlq] at hfound
    cases hfound
    rw [hunstored] at hunstored'
    rw [hstored] at hstored'
    refine ⟨hlive, hgone q hqueue, ?_, ?_⟩
    · by_cases hok : w.disk.faults 0 = none
      · exact .inl hok
      · exact .inr (by rwa [if_neg hok] at hunstored')
    · by_cases hok : w.disk.faults 1 = none
      · exact .inl hok
      · exact .inr (by rwa [if_neg hok] at hstored')
  · rintro ⟨hlive, hgone, hdeleted, hsaved⟩
    refine ⟨⟨dlq, hdlq, hlive⟩, ?_, ?_, ?_⟩
    · rw [hstored]
      split
      · rfl
      · exact hsaved.resolve_left ‹_›
    · intro found hfound
      rw [hqueue] at hfound
      cases hfound
      exact hgone
    · rw [hunstored]
      split
      · rfl
      · exact hdeleted.resolve_left ‹_›

end Settled

theorem Offered.accepted_iff (moved : Message) {enqueueEnv : Env} {dlq : Queue}
    (hrouted : dlq.Routed) :
    (if dlq.full then moved.body ∈ dlq.ledger else dlq.Admits enqueueEnv) ↔
      ∃ dlq' final, Offered moved enqueueEnv dlq dlq' final ∧ moved.body ∈ dlq'.ledger := by
  rw [← Queue.enqueueDirect_ok_iff_admits hrouted moved]
  cases hfull : dlq.full with
  | true =>
    refine ⟨fun hheld => ⟨dlq, moved, .refused hfull, hheld⟩, ?_⟩
    rintro ⟨dlq', final, hoffered, hmem⟩
    exact hoffered.mem_ledger_iff.mp hmem hfull
  | false =>
    constructor
    · rintro ⟨dlq', hdirect⟩
      exact ⟨dlq', _, .accepted hfull hdirect, (Queue.enqueueDirect_carries hdirect).mem_ledger⟩
    · rintro ⟨dlq', final, hnot | ⟨_, hdirect⟩, _⟩
      · rw [hfull] at hnot
        cases hnot
      · exact ⟨dlq', hdirect⟩

theorem moveToDLQ_moved_iff (hpresent : w.disk.present = true) (hrouted : (w.dlq name).Routed)
    (hq : w.queue? name = some q) (hsettled : q.inFlight.find? msg.id = none) :
    (moveToDLQ name msg env).Returns w (fun _ w' => MovedToDLQ name msg w') ↔
      CanMove name msg env q w := by
  have hlive : msg.id ∉ q.live.map Message.id ↔ msg.id ∉ q.messages.map Message.id := by
    rw [Queue.live, List.map_append, List.mem_append, not_or]
    exact and_iff_left (KeyedMap.find?_eq_none_iff_notMem.mp hsettled)
  have hparts {w' : World} {dlq : Queue} {final : Message} (hcreated : Created (dlqName name) w w')
      (hoffered : Offered (deadLetter name msg env.moved) env.enqueue (w.dlq name) dlq final) :
      MovedToDLQ name msg (w'.settled name msg dlq final) ↔
        deadBody name msg ∈ dlq.ledger ∧ msg.id ∉ q.messages.map Message.id ∧
        (w.disk.faults (creationCalls (dlqName name) w) = none ∨
          w.disk.storage.table (name, msg.id) = none) ∧
        (w.disk.faults (creationCalls (dlqName name) w + 1) = none ∨
          w.disk.storage.table (dlqName name, msg.id) = some (deadBody name msg)) := by
    have hname : dlq.name = dlqName name :=
      hoffered.name_eq.trans (World.queue?_name hcreated.queue)
    have hq' : w'.queue? name = some q := by rw [hcreated.others name (dlqName_ne name).symm, hq]
    have htable : w'.disk.storage.table = w.disk.storage.table := by
      funext key
      rw [Storage.table, hcreated.messages, Storage.table]
    rw [movedToDLQ_settled_iff hcreated.present hoffered.body hname hq', hlive, htable,
      hcreated.faults, hcreated.faults, Nat.zero_add, Nat.add_comm 1]
  have hcreates (hgets : w.Gets (dlqName name)) :=
    (createQueue_created hpresent ((World.gets_iff hpresent).mp hgets)).2
  rw [returns_moveToDLQ]
  constructor
  · rintro ⟨hok, dlq, final, hoffered, hmoved⟩
    obtain ⟨hheld, halone, hdeleted, hsaved⟩ := (hparts (hcreates hok) hoffered).mp hmoved
    exact ⟨hok, (Offered.accepted_iff _ hrouted).mpr ⟨dlq, final, hoffered, hheld⟩, halone, hdeleted,
      hsaved⟩
  · rintro ⟨hok, haccepted, halone, hdeleted, hsaved⟩
    obtain ⟨dlq, final, hoffered, hheld⟩ :=
      (Offered.accepted_iff (deadLetter name msg env.moved) hrouted).mp haccepted
    exact ⟨hok, dlq, final, hoffered,
      (hparts (hcreates hok) hoffered).mpr ⟨hheld, halone, hdeleted, hsaved⟩⟩

theorem dlq_setQueue (q' : Queue) (hq : w.queue? name = some q) (hname : q'.name = q.name) :
    (w.setQueue q').queue? (dlqName name) = w.queue? (dlqName name) ∧
      (w.setQueue q').dlq name = w.dlq name := by
  have hother : dlqName name ≠ q'.name := by
    rw [hname, World.queue?_name hq]
    exact dlqName_ne name
  have hsame := World.queue?_setQueue_of_ne w hother
  exact ⟨hsame, by rw [World.dlq, hsame, World.dlq]⟩

theorem canMove_settled_iff (hq : w.queue? name = some q) :
    CanMove name msg env { q with inFlight := q.inFlight.erase id }
      (w.setQueue { q with inFlight := q.inFlight.erase id }) ↔ CanMove name msg env q w := by
  obtain ⟨hsame, hdlq⟩ := dlq_setQueue { q with inFlight := q.inFlight.erase id } hq rfl
  have hcalls : creationCalls (dlqName name) (w.setQueue { q with
      inFlight := q.inFlight.erase id }) = creationCalls (dlqName name) w := by
    rw [creationCalls, hsame, creationCalls]
  have hgets : (w.setQueue { q with inFlight := q.inFlight.erase id }).Gets (dlqName name) ↔
      w.Gets (dlqName name) := by
    rw [World.Gets, hsame]
    rfl
  constructor
  · rintro ⟨hok, haccepted, halone, hdeleted, hsaved⟩
    rw [hdlq] at haccepted
    rw [hcalls] at hdeleted hsaved
    exact ⟨hgets.mp hok, haccepted, halone, hdeleted, hsaved⟩
  · rintro ⟨hok, haccepted, halone, hdeleted, hsaved⟩
    rw [← hdlq] at haccepted
    rw [← hcalls] at hdeleted hsaved
    exact ⟨hgets.mpr hok, haccepted, halone, hdeleted, hsaved⟩

/-- A nack that ends in the DLQ either moves the message as a whole or leaves it in
flight exactly if the move can be made. -/
theorem handleNack_allOrNothing_iff {requeue : Bool} (hpresent : w.disk.present = true)
    (hrouted : (w.dlq name).Routed) (hq : w.queue? name = some q) (hfind : q.inFlight.find? id = some msg)
    (hverdict : nackVerdict q.failurePolicy q.maxRetries requeue msg.attempt = .toDLQ) :
    (handleNack id name "" requeue env).Returns w (AllOrNothing name msg) ↔
      CanMove name msg env q w := by
  have hid : id = msg.id := (KeyedMap.find?_eq_some_iff.mp hfind).2.symm
  subst hid
  have hself : (w.setQueue { q with inFlight := q.inFlight.erase msg.id }).queue? name =
      some { q with inFlight := q.inFlight.erase msg.id } := by
    rw [← World.queue?_name hq]
    exact World.queue?_setQueue_self _ w
  -- The handler reports success whatever the move met.
  have hresult : AllOrNothing name msg (true, none) = MovedToDLQ name msg := by
    funext w'
    simp [AllOrNothing]
  rw [returns_handleNack hq hfind hverdict, hresult, ← canMove_settled_iff hq]
  refine moveToDLQ_moved_iff hpresent ?_ hself (KeyedMap.find?_erase_self _ msg.id)
  exact (dlq_setQueue { q with inFlight := q.inFlight.erase msg.id } hq rfl).2 ▸ hrouted

/-- An order in flight and stored, over a DLQ that takes one message and already
holds `waiting`. -/
def rejecting (waiting : List Message) : World where
  broker := { Broker.new 0 with
    queues := ((∅ : KeyedMap Queue.name).insert
      { Queue.new "orders" with inFlight := (∅ : KeyedMap Message.id).insert (Queue.order "a") }).insert
      { Queue.new "orders.dlq" with messages := waiting, maxSize := 1 } }
  disk := ⟨true, Storage.empty.saveMessage (Queue.order "a"), fun _ => none⟩

def rejection : NackEnv := ⟨1, ⟨1, []⟩, 1, Queue.quiet⟩

theorem handleNack_allOrNothing_room :
    (handleNack "a" "orders" "" false rejection).Returns (rejecting [])
      (AllOrNothing "orders" (Queue.order "a")) := by
  have hrouted : ((rejecting []).dlq "orders").Routed := fun _ hassigned => by cases hassigned
  refine (handleNack_allOrNothing_iff rfl hrouted rfl rfl rfl).mpr
    ⟨.inl rfl, ?_, ?_, .inl rfl, .inl rfl⟩
  · exact fun g hg => by cases hg
  · exact List.not_mem_nil

def rejectingFull : World := rejecting [{ Queue.order "b" with queue := "orders.dlq" }]

/-- Over a full DLQ the nack reports success and the message is in no queue. -/
theorem handleNack_loses_over_full_dlq :
    (∃ q, rejectingFull.queue? "orders" = some q ∧
      q.inFlight.find? "a" = some (Queue.order "a") ∧
      nackVerdict q.failurePolicy q.maxRetries false (Queue.order "a").attempt = .toDLQ) ∧
    ¬(handleNack "a" "orders" "" false rejection).Returns rejectingFull
      (AllOrNothing "orders" (Queue.order "a")) := by
  refine ⟨⟨_, rfl, rfl, rfl⟩, ?_⟩
  rintro (⟨_, hmoved⟩ | ⟨herr, _⟩)
  · have ⟨dlq, hdlq, hlive⟩ := hmoved.live
    cases hdlq
    revert hlive
    decide
  · cases herr

end QwerQ
