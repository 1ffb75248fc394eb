import QwerQ.Queue.Ledger
import Mathlib.Data.Set.Insert

/-! The ids a queue holds, pending or in flight, and what each method does to them.
Deliveries, receives, expiries and consumers that come and go do nothing. -/
namespace QwerQ.Queue
open List
variable {q q' : Queue} {id : String}

def ids (q : Queue) : Set String :=
  {id | id ∈ q.messages.map Message.id ∨ (q.inFlight.find? id).isSome}

variable {now : Time} {msg : Message} {pass : Pass}

theorem mem_ids : id ∈ q.ids ↔ id ∈ q.messages.map Message.id ∨ (q.inFlight.find? id).isSome :=
  Iff.rfl

theorem mem_ids_iff_live : id ∈ q.ids ↔ id ∈ q.live.map Message.id := by
  rw [← ledger_ids, mem_ledger_ids, mem_ids]

theorem new_ids (name : String) : (new name).ids = ∅ := by
  ext id
  simp [mem_ids, new]

theorem ids_congr (hmessages : q'.messages = q.messages) (hinFlight : q'.inFlight = q.inFlight) :
    q'.ids = q.ids := by
  rw [ids, hmessages, hinFlight, ids]

theorem handOut_ids {c : Consumer} {rest : List Message}
    (hhead : q.messages = msg :: rest) : (q.handOut c now msg rest).ids = q.ids := by
  ext id
  simp only [mem_ids, handOut, hhead, map_cons, mem_cons, KeyedMap.find?_insert,
    leased_id]
  by_cases hid : id = msg.id
  · simp [hid]
  · simp [hid]

theorem Delivers.ids {sends : List Delivery} (run : Delivers now q sends q') :
    q'.ids = q.ids :=
  run.invariant (fun _ q' => q'.ids = q.ids) rfl fun h step => by
    cases step with
    | route hroutes => rw [ids_congr hroutes.messages hroutes.inFlight, h]
    | handOut hhead _ _ => rw [handOut_ids hhead, h]

theorem tryDeliver_ids (h : q.tryDeliver pass = .ok q') : q'.ids = q.ids :=
  have ⟨_, run⟩ := tryDeliver_delivers h
  run.ids

theorem enqueueDirect_ids {env : Env} (h : q.enqueueDirect msg env = .ok q') :
    q'.ids = insert msg.id q.ids := by
  simp only [enqueueDirect, fanOut, Go.bind_eq_ok] at h
  obtain ⟨delivered, hpass, hfan⟩ := h
  have hsame := forGroups_sameLedger hfan
  rw [ids_congr hsame.messages hsame.inFlight, tryDeliver_ids hpass]
  ext id
  simp only [mem_ids, Set.mem_insert_iff, map_append, map_cons, map_nil,
    mem_append, mem_singleton]
  tauto

theorem enqueue_ids {env : Env} {err : Option Err}
    (h : q.enqueue msg env = .ok (q', err)) :
    err = (if q.full then some .queueFull else none) ∧
      q'.ids = if q.full then q.ids else insert msg.id q.ids := by
  rcases enqueue_cases h with ⟨hfull, rfl, rfl⟩ | ⟨hroom, rfl, hdirect⟩
  · simp [hfull]
  · simp [hroom, enqueueDirect_ids hdirect]

/-- The id leaves with the message in flight: no pending one carries it. -/
def settles (id : String) (q : Queue) : Bool :=
  (q.inFlight.find? id).isSome && !decide (id ∈ q.messages.map Message.id)

theorem erase_ids (id : String) (q : Queue) :
    ids { q with inFlight := q.inFlight.erase id } = if q.settles id then q.ids \ {id} else q.ids := by
  ext other
  by_cases hother : other = id
  · subst hother
    rw [mem_ids, KeyedMap.find?_erase_self, settles]
    by_cases hpending : other ∈ q.messages.map Message.id
    · rw [decide_eq_true hpending, Bool.not_true, Bool.and_false]
      exact iff_of_true (.inl hpending) (.inl hpending)
    · rw [decide_eq_false hpending, Bool.not_false, Bool.and_true]
      cases hfind : q.inFlight.find? other with
      | none => simp [mem_ids, hpending, hfind]
      | some msg => simp [hpending]
  · split <;> simp [mem_ids, KeyedMap.find?_erase, hother]

theorem ack_ids {s : Unit} {result : Bool × Option Err}
    (h : q.ackWithHook id Hook.none pass () = .ok ((q', s), result)) :
    q'.ids = if q.settles id then q.ids \ {id} else q.ids := by
  cases ackWithHook_cases h with
  | missing hnone => simp [settles, hnone]
  | refused _ hhook => cases hhook
  | settled _ _ hpass => rw [tryDeliver_ids hpass, erase_ids]

def discards (id : String) (requeue : Bool) (q : Queue) : Bool :=
  (q.inFlight.find? id).any (fun msg =>
    nackVerdict q.failurePolicy q.maxRetries requeue msg.attempt ≠ .requeue) && q.settles id

theorem nack_ids {requeue : Bool} {s : Unit}
    {result : NackResult × Option Err}
    (h : q.nackWithHooks id requeue Hook.none Hook.none now pass () = .ok ((q', s), result)) :
    q'.ids = if q.discards id requeue then q.ids \ {id} else q.ids := by
  cases nackWithHooks_cases h with
  | missing hnone => simp [discards, hnone]
  | toDLQ hfind hverdict =>
    refine (erase_ids id q).trans ?_
    simp [discards, hfind, hverdict]
  | dropped hfind hverdict _ =>
    refine (erase_ids id q).trans ?_
    simp [discards, hfind, hverdict]
  | keptFromDrop _ _ hhook => cases hhook
  | keptFromRequeue _ _ hhook => cases hhook
  | @requeued msg _ _ hfind hverdict _ hpass =>
    have hid : msg.id = id := (KeyedMap.find?_eq_some_iff.mp hfind).2
    have hkept : q.discards id requeue = false := by simp [discards, hfind, hverdict]
    rw [tryDeliver_ids hpass, hkept]
    ext other
    by_cases hother : other = id
    · simp [mem_ids, hother, hid, hfind]
    · simp [mem_ids, KeyedMap.find?_erase, hother, hid]

def Op.isLocal : Op → Bool
  | .dequeue .. | .removeConsumer _ | .receive _ | .requeueExpired .. => true
  | _ => false

theorem ids_of_ledger (h : q'.ledger.Perm q.ledger) : q'.ids = q.ids := by
  ext id
  rw [mem_ids_iff_live, mem_ids_iff_live, ← ledger_ids, ← ledger_ids]
  exact (h.map Body.id).mem_iff

theorem local_ids {op : Op} {reports : List Event} (hlocal : op.isLocal = true)
    (h : q.apply op = .ok (q', reports)) : q'.ids = q.ids := by
  cases op with
  | dequeue timeout pass =>
    simp only [apply, dequeue, Go.bind_eq_ok, Go.pure_eq] at h
    obtain ⟨_, ⟨_, hpass, hadd⟩, hret⟩ := h
    cases hadd
    cases hret
    rw [tryDeliver_ids hpass]
    rfl
  | removeConsumer ch =>
    cases h
    unfold removeConsumer
    split <;> rfl
  | receive ch =>
    cases h
    rfl
  | requeueExpired sweep group =>
    simp only [apply, requeueExpired, requeueExpiredOwn, foldl_expire_inOrder, Go.bind_eq_ok,
      Go.pure_eq] at h
    obtain ⟨_, ⟨_, hpass, hgroups⟩, hret⟩ := h
    cases hret
    have hsame := forGroups_sameLedger hgroups
    rw [ids_congr hsame.messages hsame.inFlight, tryDeliver_ids hpass]
    exact ids_of_ledger (swept_ledger q sweep.now sweep.order)
  | _ => cases hlocal

end QwerQ.Queue
