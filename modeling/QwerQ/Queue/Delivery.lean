import QwerQ.Queue
import QwerQ.Library.Run

/-! What a delivery pass can do, said once: it hands out the head of the pending
list, one message at a time, and otherwise only touches the routing state
(channel buffers, the round-robin index and the key assignments). Every fact
about `tryDeliver` below and in later modules is an invariant of these steps. -/
namespace QwerQ.Queue
open List

/-- A change of the routing state alone. New key assignments name registered
consumers. -/
structure Routes (q q' : Queue) : Prop where
  same : q' = { q with
    consumers := q'.consumers
    nextIdx := q'.nextIdx
    keyAssignments := q'.keyAssignments }
  consumers : q'.consumers.map (fun c => (c.ch, c.visibilityTimeout)) =
    q.consumers.map fun c => (c.ch, c.visibilityTimeout)
  assigned : ∀ assignment ∈ q'.keyAssignments.entries,
    assignment ∈ q.keyAssignments.entries ∨ assignment.2 ∈ q.consumers.map Consumer.ch

variable {q q' : Queue}

theorem Routes.refl (q : Queue) : Routes q q := ⟨rfl, rfl, fun _ h => .inl h⟩

namespace Routes
variable (h : Routes q q')
include h

theorem messages : q'.messages = q.messages := by rw [h.same]
theorem inFlight : q'.inFlight = q.inFlight := by rw [h.same]
theorem failurePolicy : q'.failurePolicy = q.failurePolicy := by rw [h.same]
theorem maxRetries : q'.maxRetries = q.maxRetries := by rw [h.same]
theorem sent : q'.sent = q.sent := by rw [h.same]

theorem channels : q'.consumers.map Consumer.ch = q.consumers.map Consumer.ch := by
  have hfst := congrArg (List.map Prod.fst) h.consumers
  simpa only [map_map, Function.comp_def] using hfst

end Routes

def leased (msg : Message) (deadline : Time) : Message :=
  { msg with visibleAt := deadline, attempt := msg.attempt + 1 }

@[simp] theorem leased_id (msg : Message) (deadline : Time) : (leased msg deadline).id = msg.id := rfl
@[simp] theorem leased_body (msg : Message) (deadline : Time) :
    (leased msg deadline).body = msg.body := rfl

/-- The head of the pending list goes in flight under the lease of `c`. -/
def handOut (c : Consumer) (now : Time) (msg : Message) (rest : List Message) (q : Queue) : Queue :=
  { q with
    messages := rest
    inFlight := q.inFlight.insert (leased msg (now + c.visibilityTimeout))
    sent := q.sent ++ [⟨c.ch, cloneMessage msg, now, c.visibilityTimeout⟩] }

inductive DeliveryStep (now : Time) : List Delivery → Queue → List Delivery → Queue → Prop where
  | route {history : List Delivery} {q q' : Queue} :
      Routes q q' → DeliveryStep now history q [] q'
  | handOut {history : List Delivery} {q : Queue} {c : Consumer} {msg : Message}
      {rest : List Message} :
      q.messages = msg :: rest → msg.visibleAt ≤ now → c ∈ q.consumers →
      DeliveryStep now history q [⟨c.ch, cloneMessage msg, now, c.visibilityTimeout⟩]
        (q.handOut c now msg rest)

/-- A delivery pass that read the clock at `now`, with what it sent. -/
abbrev Delivers (now : Time) := Run (DeliveryStep now)

theorem send_routes (c : Consumer) (msg : Message) (now : Time) (q : Queue) :
    Routes q { q.send c msg now with sent := q.sent } := by
  refine ⟨rfl, ?_, fun _ h => .inl h⟩
  simp only [send, map_map]
  apply map_congr_left
  intro other _
  simp only [Function.comp_apply]
  split <;> rfl

theorem assign_routes {key : String} {ch : Nat}
    (h : q.assign key = .ok (ch, q')) : Routes q q' := by
  unfold assign at h
  split at h
  · cases h
    exact .refl q
  · split at h
    · cases h
    · rename_i c hget
      cases h
      refine ⟨rfl, rfl, ?_⟩
      intro assignment hmem
      rcases KeyedMap.mem_entries_insert.mp hmem with hold | rfl
      · exact .inl hold.1
      · exact .inr (mem_map_of_mem (mem_of_getElem? hget))

/-- A delivery attempt either only routes, or has also sent the message to a
registered consumer. -/
inductive Attempt (msg : Message) (now : Time) (q : Queue) : Option Message → Queue → Prop where
  | blocked {q' : Queue} : Routes q q' → Attempt msg now q none q'
  | taken {q' : Queue} {c : Consumer} : c ∈ q.consumers → Routes q { q' with sent := q.sent } →
      q'.sent = q.sent ++ [⟨c.ch, cloneMessage msg, now, c.visibilityTimeout⟩] →
      Attempt msg now q (some { msg with visibleAt := now + c.visibilityTimeout }) q'

variable {msg : Message} {now : Time} {rx rx' : List Bool} {result : Option Message}
  {sends : List Delivery} {pass : Pass}

theorem deliverOrdered_attempt
    (h : q.deliverOrdered msg now rx = .ok (result, rx', q')) :
    Attempt msg now q result q' := by
  unfold deliverOrdered at h
  split at h
  · cases h
  · rename_i ch assigned hassign
    have hroutes := assign_routes hassign
    split at h
    · cases h
    · rename_i c hfind
      split at h
      · cases h
        have hconsumers : assigned.consumers = q.consumers := by
          unfold assign at hassign
          split at hassign
          · cases hassign
            rfl
          · split at hassign
            · cases hassign
            · cases hassign
              rfl
        have hsend := send_routes c msg now assigned
        refine .taken (hconsumers ▸ mem_of_find?_eq_some hfind)
          ⟨?_, ?_, hroutes.assigned⟩ (by rw [← hroutes.sent]; rfl)
        · have hsame := hroutes.same
          cases assigned
          cases q
          simp_all [send]
        · exact hsend.consumers.trans hroutes.consumers
      · cases h
        exact .blocked hroutes

theorem roundRobin_attempt (offsets : List Nat)
    (h : roundRobin msg now offsets rx q = .ok (result, rx', q')) :
    Attempt msg now q result q' := by
  induction offsets generalizing rx with
  | nil =>
    cases h
    exact .blocked (.refl q)
  | cons j js ih =>
    simp only [roundRobin] at h
    split at h
    · cases h
    · rename_i c hget
      split at h
      · cases h
        have hsend := send_routes c msg now q
        exact .taken (mem_of_getElem? hget) ⟨rfl, hsend.consumers, hsend.assigned⟩ rfl
      · exact ih h

theorem deliver_attempt (h : q.deliver msg now rx = .ok (result, rx', q')) :
    Attempt msg now q result q' := by
  unfold deliver at h
  split at h
  · exact deliverOrdered_attempt h
  · exact roundRobin_attempt _ h

private theorem handOut_routes {c : Consumer} {rest : List Message}
    (hroutes : Routes q { q' with sent := q.sent })
    (hsent : q'.sent = q.sent ++ [⟨c.ch, cloneMessage msg, now, c.visibilityTimeout⟩]) :
    Routes (q.handOut c now msg rest) { q' with
      messages := rest
      inFlight := q'.inFlight.insert (leased msg (now + c.visibilityTimeout)) } := by
  have hsame := hroutes.same
  refine ⟨?_, hroutes.consumers, hroutes.assigned⟩
  cases q'
  simp_all [handOut]

private theorem deliverLoop_delivers (pending : List Message)
    {first : Queue} (hpending : q.messages = pending)
    (hrun : Delivers now first sends q) (h : deliverLoop now pending rx q = .ok q') :
    ∃ sends', Delivers now first sends' q' := by
  induction pending generalizing q rx sends with
  | nil =>
    cases h
    exact ⟨sends, hrun⟩
  | cons msg rest ih =>
    simp only [deliverLoop] at h
    split at h
    · cases h
      exact ⟨sends, hrun⟩
    · rename_i hvisible
      split at h
      · cases h
      · rename_i hdeliver
        cases h
        cases deliver_attempt hdeliver with
        | blocked hroutes => exact ⟨_, hrun.next (.route hroutes)⟩
      · rename_i hdeliver
        cases deliver_attempt hdeliver with
        | taken hc hroutes hsent =>
          have hhand := hrun.next (.handOut hpending (not_lt.mp hvisible) hc)
          exact ih rfl (hhand.next (.route (handOut_routes hroutes hsent))) h

theorem tryDeliver_delivers (h : q.tryDeliver pass = .ok q') :
    ∃ sends, Delivers pass.now q sends q' := by
  unfold tryDeliver at h
  split at h
  · cases h
    exact ⟨[], .start⟩
  · exact deliverLoop_delivers q.messages rfl .start h

/-- Every key is assigned to a registered consumer. -/
def Routed (q : Queue) : Prop :=
  ∀ assignment ∈ q.keyAssignments.entries, assignment.2 ∈ q.consumers.map Consumer.ch

theorem Routes.routed (h : Routes q q') (hrouted : q.Routed) : q'.Routed := by
  intro assignment hmem
  rw [h.channels]
  rcases h.assigned assignment hmem with hold | hnew
  · exact hrouted assignment hold
  · exact hnew

theorem Routed.join (h : q.Routed) (c : Consumer) (made : Nat) :
    Routed { q with consumers := q.consumers ++ [c], made := made } := by
  intro assignment hmem
  rw [map_append]
  exact mem_append_left _ (h assignment hmem)

theorem Delivers.routed (run : Delivers now q sends q') (h : q.Routed) : q'.Routed :=
  run.invariant (fun _ q => q.Routed) h fun hrouted step => by
    cases step with
    | route hroutes => exact hroutes.routed hrouted
    | handOut _ _ _ => exact hrouted

theorem Delivers.channels
    (run : Delivers now q sends q') : q'.consumers.map Consumer.ch = q.consumers.map Consumer.ch :=
  run.invariant (fun _ q' => q'.consumers.map Consumer.ch = q.consumers.map Consumer.ch) rfl
    fun h step => by
      cases step with
      | route hroutes => exact hroutes.channels.trans h
      | handOut _ _ _ => exact h

theorem assign_ok (key : String) (h : q.Routed) (hc : q.consumers ≠ []) :
    ∃ ch q', q.assign key = .ok (ch, q') ∧ ch ∈ q'.consumers.map Consumer.ch := by
  unfold assign
  cases hfind : q.keyAssignments.find? key with
  | some assignment =>
    exact ⟨assignment.2, q, rfl, h assignment (KeyedMap.find?_eq_some_iff.mp hfind).1⟩
  | none =>
    have hlt : (fnv32a key).toNat % q.consumers.length < q.consumers.length :=
      Nat.mod_lt _ (length_pos_iff.mpr hc)
    simp only [getElem?_eq_getElem hlt]
    exact ⟨_, _, rfl, mem_map_of_mem (getElem_mem hlt)⟩

private theorem deliverOrdered_ok
    (h : q.Routed) (hc : q.consumers ≠ []) : ∃ result, q.deliverOrdered msg now rx = .ok result := by
  have ⟨ch, q', hassign, hch⟩ := assign_ok msg.orderingKey h hc
  unfold deliverOrdered
  simp only [hassign]
  cases hfind : q'.consumers.find? (fun c => c.ch = ch) with
  | none =>
    have ⟨c, hmem, heq⟩ := mem_map.mp hch
    have hnone := find?_eq_none.mp hfind c hmem
    simp [heq] at hnone
  | some c =>
    dsimp only
    split <;> exact ⟨_, rfl⟩

private theorem roundRobin_ok (hc : q.consumers ≠ [])
    (offsets : List Nat) (rx : List Bool) : ∃ result, roundRobin msg now offsets rx q = .ok result := by
  induction offsets generalizing rx with
  | nil => exact ⟨_, rfl⟩
  | cons j js ih =>
    have hlt : (q.nextIdx + j) % q.consumers.length < q.consumers.length :=
      Nat.mod_lt _ (length_pos_iff.mpr hc)
    simp only [roundRobin, getElem?_eq_getElem hlt]
    split
    · exact ⟨_, rfl⟩
    · exact ih rx.tail

theorem deliver_ok (msg : Message) (now : Time) (rx : List Bool) (h : q.Routed)
    (hc : q.consumers ≠ []) : ∃ result, q.deliver msg now rx = .ok result := by
  unfold deliver
  split
  · exact deliverOrdered_ok h hc
  · exact roundRobin_ok hc _ rx

theorem Attempt.routed
    (h : Attempt msg now q result q') (hrouted : q.Routed) (hc : q.consumers ≠ []) :
    q'.Routed ∧ q'.consumers ≠ [] := by
  have hkept : q'.Routed ∧ q'.consumers.map Consumer.ch = q.consumers.map Consumer.ch := by
    cases h with
    | blocked hroutes => exact ⟨hroutes.routed hrouted, hroutes.channels⟩
    | taken _ hroutes _ => exact ⟨hroutes.routed hrouted, hroutes.channels⟩
  refine ⟨hkept.1, fun hnil => hc ?_⟩
  have hchannels := hkept.2
  rwa [hnil, map_nil, eq_comm, map_eq_nil_iff] at hchannels

private theorem deliverLoop_ok (pending : List Message)
    (h : q.Routed) (hc : q.consumers ≠ []) : ∃ q', deliverLoop now pending rx q = .ok q' := by
  induction pending generalizing q rx with
  | nil => exact ⟨q, rfl⟩
  | cons msg rest ih =>
    have ⟨⟨result, rx', q'⟩, hdeliver⟩ := deliver_ok msg now rx h hc
    have ⟨hrouted, hc'⟩ := (deliver_attempt hdeliver).routed h hc
    simp only [deliverLoop, hdeliver]
    split
    · exact ⟨q, rfl⟩
    · cases result with
      | none => exact ⟨q', rfl⟩
      | some sent =>
        apply ih
        · exact hrouted
        · exact hc'

theorem tryDeliver_ok (pass : Pass) (h : q.Routed) : ∃ q', q.tryDeliver pass = .ok q' := by
  unfold tryDeliver
  split
  · exact ⟨q, rfl⟩
  · rename_i hidle
    apply deliverLoop_ok q.messages h
    intro hnil
    simp [hnil] at hidle

def early (messages : List Message) : Time := (messages.head?.map fun msg => msg.visibleAt - 1).getD 0

theorem early_lt {messages : List Message} (msg : Message) (h : msg ∈ messages.head?) :
    early messages < msg.visibleAt := by
  rw [early, h]
  exact Int.sub_one_lt_of_le (Int.le_refl _)

theorem tryDeliver_early
    (h : ∀ msg ∈ q.messages.head?, pass.now < msg.visibleAt) : q.tryDeliver pass = .ok q := by
  unfold tryDeliver
  split
  · rfl
  · cases hmessages : q.messages with
    | nil => rfl
    | cons msg rest =>
      rw [hmessages] at h
      rw [deliverLoop, if_pos (h msg rfl)]

private theorem deliver_ready (msg : Message) (now : Time) (rx : List Bool)
    (h : q.Routed) (hc : q.consumers ≠ []) :
    ∃ sent q', q.deliver msg now (true :: rx) = .ok (some sent, rx, q') := by
  unfold deliver
  split
  · have ⟨ch, assigned, hassign, hch⟩ := assign_ok msg.orderingKey h hc
    have ⟨c, hmem, heq⟩ := mem_map.mp hch
    cases hfind : assigned.consumers.find? (fun c => c.ch = ch) with
    | none => exact absurd heq (by simpa using find?_eq_none.mp hfind c hmem)
    | some c =>
      simp only [deliverOrdered, hassign, hfind]
      exact ⟨_, _, rfl⟩
  · have hpos : 0 < q.consumers.length := length_pos_iff.mpr hc
    have hlt : (q.nextIdx + 0) % q.consumers.length < q.consumers.length := Nat.mod_lt _ hpos
    have ⟨n, hn⟩ : ∃ n, q.consumers.length = n + 1 := ⟨_, (Nat.succ_pred_eq_of_pos hpos).symm⟩
    have hrange : List.range q.consumers.length = 0 :: (List.range n).map Nat.succ := by
      rw [hn, range_succ_eq_map]
    simp only [deliverRoundRobin, hrange, roundRobin, getElem?_eq_getElem hlt]
    exact ⟨_, _, rfl⟩

private theorem deliverLoop_drains (pending : List Message)
    (hpending : q.messages = pending) (hdue : ∀ msg ∈ pending, msg.visibleAt ≤ now) (h : q.Routed)
    (hc : q.consumers ≠ []) :
    ∃ q', deliverLoop now pending (pending.map fun _ => true) q = .ok q' ∧ q'.messages = [] := by
  induction pending generalizing q with
  | nil => exact ⟨q, rfl, hpending⟩
  | cons msg rest ih =>
    have ⟨sent, q', hdeliver⟩ := deliver_ready msg now (rest.map fun _ => true) h hc
    have ⟨hrouted, hc'⟩ := (deliver_attempt hdeliver).routed h hc
    rw [map_cons, deliverLoop, if_neg (not_lt.mpr (hdue msg mem_cons_self)), hdeliver]
    exact ih rfl (fun other hother => hdue other (mem_cons_of_mem _ hother)) hrouted hc'

theorem tryDeliver_drains (h : q.Routed) (hc : q.consumers ≠ []) :
    ∃ pass q', q.tryDeliver pass = .ok q' ∧ q'.messages = [] := by
  have ⟨now, hdue⟩ : ∃ now, ∀ msg ∈ q.messages, msg.visibleAt ≤ now := by
    induction q.messages with
    | nil => exact ⟨0, fun _ hmem => absurd hmem not_mem_nil⟩
    | cons msg rest ih =>
      have ⟨now, hrest⟩ := ih
      refine ⟨max msg.visibleAt now, fun other hother => ?_⟩
      rcases mem_cons.mp hother with rfl | hlater
      · exact le_max_left _ _
      · exact (hrest other hlater).trans (le_max_right _ _)
  have ⟨q', hloop, hnil⟩ := deliverLoop_drains q.messages rfl hdue h hc
  refine ⟨⟨now, q.messages.map fun _ => true⟩, ?_⟩
  unfold tryDeliver
  split
  · rename_i hidle
    refine ⟨q, rfl, ?_⟩
    simpa [hc] using hidle
  · exact ⟨q', hloop, hnil⟩

theorem Delivers.same (run : Delivers now q sends q') :
    q' = { q with
      messages := q'.messages
      inFlight := q'.inFlight
      consumers := q'.consumers
      nextIdx := q'.nextIdx
      keyAssignments := q'.keyAssignments
      sent := q'.sent } :=
  run.invariant (fun _ q' => q' = { q with
      messages := q'.messages
      inFlight := q'.inFlight
      consumers := q'.consumers
      nextIdx := q'.nextIdx
      keyAssignments := q'.keyAssignments
      sent := q'.sent }) rfl fun hsame step => by
    cases step with
    | route hroutes =>
      rw [hroutes.same, hsame]
    | handOut _ _ _ =>
      unfold handOut
      rw [hsame]

theorem Delivers.sent {now : Time} {sends : List Delivery}
    (run : Delivers now q sends q') : q'.sent = q.sent ++ sends :=
  run.invariant (fun sends q' => q'.sent = q.sent ++ sends) (append_nil _).symm
    fun hsent step => by
      cases step with
      | route hroutes => rw [hroutes.sent, hsent, append_nil]
      | handOut _ _ _ => rw [handOut, hsent, append_assoc]

def ledger (q : Queue) : List Body := q.live.map Message.body

def Distinct (q : Queue) : Prop := (q.ledger.map Body.id).Nodup

theorem ledger_ids (q : Queue) : q.ledger.map Body.id = q.live.map Message.id := by
  simp only [ledger, map_map]
  rfl

theorem mem_ledger_ids {id : String} :
    id ∈ q.ledger.map Body.id ↔ id ∈ q.messages.map Message.id ∨ (q.inFlight.find? id).isSome := by
  rw [ledger_ids, live, map_append, mem_append, KeyedMap.isSome_find?_iff]

theorem Distinct.of_perm (h : q.Distinct) (hperm : q'.ledger.Perm q.ledger) :
    q'.Distinct :=
  (hperm.map Body.id).nodup_iff.mpr h

theorem Distinct.notInFlight (h : q.Distinct) {id : String}
    (hpending : id ∈ q.messages.map Message.id) : q.inFlight.find? id = none := by
  unfold Distinct at h
  rw [ledger_ids, live, map_append] at h
  rw [KeyedMap.find?_eq_none_iff_notMem]
  intro hin
  exact (nodup_append.mp h).2.2 id hpending id hin rfl

theorem handOut_ledger {c : Consumer} {rest : List Message}
    (hdistinct : q.Distinct) (hhead : q.messages = msg :: rest) :
    (q.handOut c now msg rest).ledger.Perm q.ledger := by
  have hfree : q.inFlight.find? msg.id = none :=
    hdistinct.notInFlight (by rw [hhead]; exact mem_cons_self)
  have hentries : (q.inFlight.insert (leased msg (now + c.visibilityTimeout))).entries =
      q.inFlight.entries ++ [leased msg (now + c.visibilityTimeout)] :=
    KeyedMap.entries_insert_of_find?_none hfree
  unfold ledger live
  simp only [handOut, hentries, hhead, map_append, map_cons, map_nil, leased_body]
  rw [← append_assoc]
  exact perm_append_comm

theorem Delivers.ledger
    (run : Delivers now q sends q') (h : q.Distinct) : q'.ledger.Perm q.ledger :=
  run.invariant (fun _ q' => q'.ledger.Perm q.ledger) (List.Perm.refl _) fun hperm step => by
    cases step with
    | route hroutes =>
      unfold Queue.ledger live at hperm ⊢
      rw [hroutes.messages, hroutes.inFlight]
      exact hperm
    | handOut hhead _ _ => exact (handOut_ledger (h.of_perm hperm) hhead).trans hperm

theorem tryDeliver_ledger (h : q.tryDeliver pass = .ok q')
    (hdistinct : q.Distinct) : q'.ledger.Perm q.ledger :=
  have ⟨_, run⟩ := tryDeliver_delivers h
  run.ledger hdistinct

end QwerQ.Queue
