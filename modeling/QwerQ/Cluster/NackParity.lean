import QwerQ.Cluster
import QwerQ.Broker.DeadLetter

/-! A nack that goes through the log, compared with one on a single node. The state
machine takes the message out of flight and looks no further: the storage is not told,
and a message for the DLQ goes nowhere. -/
namespace QwerQ
open Process
variable {w : World} {name : String} {q : Queue} {msg : Message} {requeue : Bool}

def Queue.nacked (verdict : Verdict) (msg : Message) (now : Time) (pass : Pass) (q : Queue) : Go Queue :=
  match verdict with
  | .requeue => tryDeliver pass { q with
      inFlight := q.inFlight.erase msg.id
      messages := q.messages ++ [{ msg with visibleAt := now }] }
  | .toDLQ | .drop => .ok { q with inFlight := q.inFlight.erase msg.id }

/-- What a nack that stays in the queue does to the storage of a single node. -/
def Storage.nacked (verdict : Verdict) (name : String) (msg : Message) (now : Time) (s : Storage) : Storage :=
  match verdict with
  | .requeue => s.saveMessage { msg with visibleAt := now }
  | .drop => s.deleteMessage name msg.id
  | .toDLQ => s

section Nack
variable (hq : w.queue? name = some q) (hfind : q.inFlight.find? msg.id = some msg)
  {verdict : Verdict}
  (hverdict : nackVerdict q.failurePolicy q.maxRetries requeue msg.attempt = verdict)
include hq hfind hverdict

theorem returns_applyNack {now : Time} {pass : Pass} {post : FSMResponse → World → Prop} :
    (FSM.applyNack name msg.id requeue now pass).Returns w post ↔
      ∃ q', q.nacked verdict msg now pass = .ok q' ∧ post ⟨none, ""⟩ (w.setQueue q') := by
  rw [FSM.applyNack, returns_found hq, returns_bind, returns_lockedPure hq]
  simp only [Queue.nackWithHooks, hfind, hverdict]
  cases verdict with
  | toDLQ => simp [Queue.nackToDLQ, Queue.nacked]
  | drop => simp [Queue.nackDrop, Queue.nacked, Hook.none]
  | requeue => simp [Queue.nackRequeue, Queue.nacked, Hook.none]

theorem returns_handleNack_kept {env : NackEnv} {post : Bool × Option Err → World → Prop}
    (hquiet : w.disk.Quiet) (hkept : verdict ≠ .toDLQ) :
    (handleNack msg.id name "" requeue env).Returns w post ↔
      ∃ q', q.nacked verdict msg env.now env.pass = .ok q' ∧ post (true, none)
        { w.setQueue q' with disk := w.disk.stores (Storage.nacked verdict name msg env.now) } := by
  simp only [returns_nackSection hq, Queue.nackWithHooks, hfind, hverdict]
  cases verdict with
  | toDLQ => exact absurd rfl hkept
  | drop =>
    simp [Queue.nackDrop, Queue.nacked, deleteStored, hquiet.write_eq, settleNack]
    rfl
  | requeue =>
    simp [Queue.nackRequeue, Queue.nacked, persistRequeue, hquiet.write_eq, settleNack]
    rfl

end Nack

/-- The same messages are live in the queue and in its DLQ, and the same are stored. -/
structure SameSettled (name : String) (left right : World) : Prop where
  live : (left.queueAt name).live.Perm (right.queueAt name).live
  dead : (left.queueAt (dlqName name)).live.Perm (right.queueAt (dlqName name)).live
  stored : ∀ key, left.disk.storage.messages.find? key = right.disk.storage.messages.find? key

/-- Whatever the clocks and the delivery passes are, the command leaves what the
request leaves on a single node. -/
def NackAgrees (name id : String) (requeue : Bool) (w : World) : Prop :=
  ∀ env, (FSM.applyNack name id requeue env.now env.pass).Agrees (handleNack id name "" requeue env) w
    fun _ left _ right => SameSettled name left right

theorem moveToDLQ_pends (msg : Message) (hquiet : w.disk.Quiet) (hroom : (w.dlq name).full = false) :
    ∃ env : NackEnv, (moveToDLQ name msg env).Returns w fun _ w' =>
      ∃ dlq, w'.queue? (dlqName name) = some dlq ∧ dlq.live.length = (w.dlq name).live.length + 1 := by
  have ⟨enqueueEnv, dlq, hdirect, hmessages, hinFlight⟩ :=
    Queue.enqueueDirect_early (deadLetter name msg 0) (w.dlq name)
  have ⟨hnone, hfound⟩ := createQueue_quiet (dlqName name) hquiet
  refine ⟨⟨0, ⟨0, []⟩, 0, enqueueEnv⟩, ?_⟩
  simp only [moveToDLQ, returns_bind, returns_getOrCreateQueue, hnone, Option.isSome_none,
    Bool.false_eq_true, if_false, returns_lockedPure hfound, offered_iff]
  refine ⟨dlq, _, .accepted hroom hdirect, dlq, ?_, ?_⟩
  · exact World.queue?_put dlq hfound (Queue.enqueueDirect_name hdirect)
  · simp [Queue.live, hmessages, hinFlight]
    omega

/-- The command does what the request does: the message does not go to the DLQ, and
the request would change nothing in the storage. -/
def SettlesAlike (verdict : Verdict) (name id : String) (w : World) : Prop :=
  match verdict with
  | .toDLQ => False
  | .drop => w.disk.present = false ∨ ¬ w.HasRecord name id
  | .requeue => w.disk.present = false

theorem nackAgrees_iff_stored {verdict : Verdict} (hq : w.queue? name = some q)
    (hfind : q.inFlight.find? msg.id = some msg)
    (hverdict : nackVerdict q.failurePolicy q.maxRetries requeue msg.attempt = verdict)
    (hquiet : w.disk.Quiet) (hkept : verdict ≠ .toDLQ) :
    NackAgrees name msg.id requeue w ↔ ∀ now key, w.disk.storage.messages.find? key =
      (w.disk.stores (Storage.nacked verdict name msg now)).storage.messages.find? key := by
  constructor
  · intro h now
    -- A pass that hands nothing out, so that the nack returns.
    let pass : Pass := ⟨Queue.early (q.messages ++ [{ msg with visibleAt := now }]), []⟩
    let env : NackEnv := ⟨now, pass, now, ⟨pass, fun _ => pass⟩⟩
    have ⟨q', hnacked⟩ : ∃ q', q.nacked verdict msg now pass = .ok q' := by
      cases verdict with
      | requeue => exact ⟨_, Queue.tryDeliver_early Queue.early_lt⟩
      | drop | toDLQ => exact ⟨_, rfl⟩
    have hleft : (FSM.applyNack name msg.id requeue now pass).Returns w fun _ w' =>
        w' = w.setQueue q' := (returns_applyNack hq hfind hverdict).mpr ⟨q', hnacked, rfl⟩
    have hright : (handleNack msg.id name "" requeue env).Returns w fun _ w' =>
        w' = { w.setQueue q' with disk := w.disk.stores (Storage.nacked verdict name msg now) } :=
      (returns_handleNack_kept hq hfind hverdict hquiet hkept).mpr ⟨q', hnacked, rfl⟩
    have ⟨_, left, _, right, hl, hr, hsame⟩ := (h env).relates hleft hright
    rw [hl, hr] at hsame
    exact hsame.stored
  · intro hstored env
    cases hnacked : q.nacked verdict msg env.now env.pass with
    | error panic =>
      refine agrees_of_fails ?_ ?_
      · simp [returns_applyNack hq hfind hverdict, hnacked]
      · simp [returns_handleNack_kept hq hfind hverdict hquiet hkept, hnacked]
    | ok q' =>
      have hleft : (FSM.applyNack name msg.id requeue env.now env.pass).Returns w fun _ w' =>
          w' = w.setQueue q' := (returns_applyNack hq hfind hverdict).mpr ⟨q', hnacked, rfl⟩
      have hright : (handleNack msg.id name "" requeue env).Returns w fun _ w' => w' =
          { w.setQueue q' with disk := w.disk.stores (Storage.nacked verdict name msg env.now) } :=
        (returns_handleNack_kept hq hfind hverdict hquiet hkept).mpr ⟨q', hnacked, rfl⟩
      refine agrees_of_returns hleft hright ?_
      rintro _ _ _ _ rfl rfl
      exact ⟨.rfl, .rfl, hstored env.now⟩

theorem not_nackAgrees_toDLQ (hq : w.queue? name = some q)
    (hfind : q.inFlight.find? msg.id = some msg)
    (hverdict : nackVerdict q.failurePolicy q.maxRetries requeue msg.attempt = .toDLQ)
    (hquiet : w.disk.Quiet) (hroom : (w.dlq name).full = false) :
    ¬ NackAgrees name msg.id requeue w := by
  intro h
  let settled : Queue := { q with inFlight := q.inFlight.erase msg.id }
  have hkept : (w.setQueue settled).dlq name = w.dlq name :=
    (World.queueAt_setQueue hq (show settled.name = q.name from rfl) _).trans (if_neg (dlqName_ne name))
  have ⟨env, hmoves⟩ := moveToDLQ_pends (w := w.setQueue settled) msg hquiet (hkept.symm ▸ hroom)
  have hright : (handleNack msg.id name "" requeue env).Returns w fun _ w' => ∃ dlq,
      w'.queue? (dlqName name) = some dlq ∧
        dlq.live.length = ((w.setQueue settled).dlq name).live.length + 1 :=
    (returns_handleNack hq hfind hverdict).mpr hmoves
  have hleft : (FSM.applyNack name msg.id requeue env.now env.pass).Returns w fun _ w' =>
      w' = w.setQueue settled := (returns_applyNack hq hfind hverdict).mpr ⟨_, rfl, rfl⟩
  have ⟨_, left, _, right, hl, ⟨dlq, hdlq, hlength⟩, hsame⟩ := (h env).relates hleft hright
  have hdead := hsame.dead.length_eq
  rw [hl, World.queueAt_of_some hdlq, hlength] at hdead
  exact absurd hdead (Nat.ne_of_lt (Nat.lt_succ_self _))

theorem nackAgrees_iff (hq : w.queue? name = some q)
    (hfind : q.inFlight.find? msg.id = some msg) (hquiet : w.disk.Quiet)
    (hroom : (w.dlq name).full = false) :
    NackAgrees name msg.id requeue w ↔
      SettlesAlike (nackVerdict q.failurePolicy q.maxRetries requeue msg.attempt) name msg.id w := by
  cases hverdict : nackVerdict q.failurePolicy q.maxRetries requeue msg.attempt with
  | toDLQ => exact iff_of_false (not_nackAgrees_toDLQ hq hfind hverdict hquiet hroom) id
  | drop =>
    rw [nackAgrees_iff_stored hq hfind hverdict hquiet (fun h => by cases h), SettlesAlike]
    cases hpresent : w.disk.present with
    | false => simp [Disk.stores, hpresent]
    | true =>
      simp only [Disk.stores, hpresent, if_true, Storage.nacked, Storage.deleteMessage,
        KeyedMap.find?_erase, Bool.true_eq_false, false_or, World.HasRecord]
      constructor
      · intro h
        simp [h 0 (name, msg.id)]
      · intro hfree now key
        split
        · rename_i hkey
          simpa [hkey] using hfree
        · rfl
  | requeue =>
    rw [nackAgrees_iff_stored hq hfind hverdict hquiet (fun h => by cases h), SettlesAlike]
    cases hpresent : w.disk.present with
    | false => simp [Disk.stores, hpresent]
    | true =>
      -- The record that is saved carries the clock of the nack.
      refine iff_of_false (fun h => ?_) fun h => by cases h
      have hclock (now : Time) : w.disk.storage.messages.find? (msg.queue, msg.id) =
          some { msg with visibleAt := now } := by
        rw [h now, Disk.stores, if_pos hpresent]
        exact KeyedMap.find?_insert_self w.disk.storage.messages { msg with visibleAt := now }
      have htwo := (hclock 0).symm.trans (hclock 1)
      simp at htwo

private def unstored : World := { rejecting [] with disk := ⟨false, Storage.empty, fun _ => none⟩ }

theorem nackAgrees_unstored_requeue :
    (unstored.dlq "orders").full = false ∧ NackAgrees "orders" (Queue.order "a").id true unstored := by
  have hquiet : unstored.disk.Quiet := rfl
  refine ⟨rfl, (nackAgrees_iff rfl ?_ hquiet rfl).mpr ?_⟩
  · rfl
  · rfl

/-- An order is rejected: on a single node it is in the DLQ, also in the storage; the
state machine forgets it, and its record stays under the queue. -/
theorem applyNack_loses_rejected :
    ∃ left right,
      (FSM.applyNack "orders" "a" false rejection.now rejection.pass).run (rejecting []) =
        (.ok ⟨none, ""⟩, left) ∧
      (handleNack "a" "orders" "" false rejection).run (rejecting []) = (.ok (true, none), right) ∧
      left.liveIds "orders" = [] ∧ left.liveIds "orders.dlq" = [] ∧
      left.disk.storage.messages.entries.map Message.queue = ["orders"] ∧
      right.liveIds "orders" = [] ∧ right.liveIds "orders.dlq" = ["a"] ∧
      right.disk.storage.messages.entries.map Message.queue = ["orders.dlq"] :=
  ⟨_, _, rfl, rfl, rfl, rfl, rfl, rfl, rfl, rfl⟩

end QwerQ
