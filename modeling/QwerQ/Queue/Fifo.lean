import QwerQ.Queue.Ledger

/-! The order of delivery. What has been sent, followed by what is pending, is
what has entered the pending list, in that order: a delivery pass moves the
border between the two and every other call only appends. Ids play no part, so
nothing is asked of them. -/
namespace QwerQ.Queue
open List

/-- A message enters the pending list, from outside or from flight. -/
inductive Entry where
  | enqueued (msg : Message)
  | requeued (msg : Message)
  deriving DecidableEq

def Entry.msg : Entry → Message
  | .enqueued msg => msg
  | .requeued msg => msg

/-- What a call appends to the pending list, in the order it does. -/
def entering : Op → Queue → List Entry
  | .enqueue msg _, q => if q.full then [] else [.enqueued msg]
  | .enqueueDirect msg _, _ => [.enqueued msg]
  | .nack id requeue _ requeueHook now _, q =>
      match q.inFlight.find? id with
      | none => []
      | some msg =>
          if nackVerdict q.failurePolicy q.maxRetries requeue msg.attempt = .requeue ∧
              requeueHook = none then [.requeued (renewed now msg)]
          else []
  | .requeueExpired sweep _, q =>
      ((q.inFlight.inOrder sweep.order).filter (expired sweep.now)).map fun msg =>
        .requeued (renewed sweep.now msg)
  | _, _ => []

def Op.discards : Op → Bool
  | .remove _ => true
  | .purge => true
  | _ => false

/-- One call that discards nothing. The history is what entered the pending list. -/
inductive EntryStep : List Entry → Queue → List Entry → Queue → Prop where
  | call {history : List Entry} {reports : List Event} {q q' : Queue} (op : Op) :
      op.discards = false → q.apply op = .ok (q', reports) →
      EntryStep history q (entering op q) q'

abbrev EntryRuns := Run EntryStep

def enqueuedMessages (history : List Entry) : List Message :=
  history.filterMap fun
    | .enqueued msg => some msg
    | .requeued _ => none

/-- The messages as consumers get them: those sent, then those still to be sent. -/
def passage (q : Queue) : List Message :=
  q.sent.map Delivery.msg ++ q.messages.map cloneMessage

variable {q q' : Queue} {pass : Pass}

theorem SameLedger.passage (h : SameLedger q q') : q'.passage = q.passage := by
  rw [Queue.passage, h.sent, h.messages, Queue.passage]

theorem Delivers.passage {now : Time} {sends : List Delivery}
    (run : Delivers now q sends q') : q'.passage = q.passage :=
  run.invariant (fun _ q' => q'.passage = q.passage) rfl fun hpassage step => by
    cases step with
    | route hroutes => exact hroutes.sameLedger.passage.trans hpassage
    | handOut hhead _ _ =>
      rw [← hpassage]
      simp [Queue.passage, handOut, hhead]

theorem tryDeliver_passage (h : q.tryDeliver pass = .ok q') :
    q'.passage = q.passage :=
  have ⟨_, run⟩ := tryDeliver_delivers h
  run.passage

theorem passage_append (entries : List Entry)
    (hmessages : q'.messages = q.messages ++ entries.map Entry.msg) (hsent : q'.sent = q.sent) :
    q'.passage = q.passage ++ entries.map fun entry => cloneMessage entry.msg := by
  rw [passage, hmessages, hsent, passage, map_append, append_assoc, map_map]
  rfl

theorem passage_keep (hmessages : q'.messages = q.messages)
    (hsent : q'.sent = q.sent) : q'.passage = q.passage ++ [] :=
  passage_append [] (hmessages.trans (append_nil _).symm) hsent

theorem enqueueDirect_passage {msg : Message} {env : Env}
    (h : q.enqueueDirect msg env = .ok q') : q'.passage = q.passage ++ [cloneMessage msg] := by
  simp only [enqueueDirect, Go.bind_eq_ok] at h
  have ⟨delivered, hpass, hfan⟩ := h
  rw [(forGroups_sameLedger hfan).passage, tryDeliver_passage hpass]
  exact passage_append [.enqueued msg] rfl rfl

theorem nackWithHooks_passage {id : String} {requeue : Bool}
    {dropHook requeueHook : Option Err} {now : Time} {result : NackResult}
    {err : Option Err} {s : Unit}
    (h : q.nackWithHooks id requeue (fun _ s => (dropHook, s)) (fun _ s => (requeueHook, s)) now
      pass () = .ok ((q', s), result, err)) :
    q'.passage = q.passage ++ (entering (.nack id requeue dropHook requeueHook now pass) q).map
      fun entry => cloneMessage entry.msg := by
  unfold entering
  cases nackWithHooks_cases h with
  | missing hfind => simp [hfind]
  | toDLQ hfind hverdict => simp [hfind, hverdict, passage]
  | dropped hfind hverdict _ => simp [hfind, hverdict, passage]
  | keptFromDrop hfind hverdict _ => simp [hfind, hverdict]
  | requeued hfind hverdict hhook hpass =>
    obtain rfl : requeueHook = none := congrArg Prod.fst hhook
    simp only [hfind]
    rw [tryDeliver_passage hpass, if_pos ⟨hverdict, trivial⟩]
    exact passage_append [_] rfl rfl
  | keptFromRequeue hfind hverdict hhook =>
    obtain rfl : requeueHook = some _ := congrArg Prod.fst hhook
    simp [hfind, hverdict]

theorem enqueue_passage {msg : Message} {env : Env} {err : Option Err}
    (h : q.enqueue msg env = .ok (q', err)) :
    q'.passage = q.passage ++ (entering (.enqueue msg env) q).map fun entry =>
      cloneMessage entry.msg := by
  unfold entering
  rcases enqueue_cases h with ⟨hfull, rfl, _⟩ | ⟨hroom, _, hdirect⟩
  · simp [hfull]
  · simp only [hroom, Bool.false_eq_true, if_false]
    exact enqueueDirect_passage hdirect

theorem ackWithHook_passage {id : String} {hook : Hook σ} {s s' : σ}
    {result : Bool × Option Err} (h : q.ackWithHook id hook pass s = .ok ((q', s'), result)) :
    q'.passage = q.passage ++ [] := by
  cases ackWithHook_cases h with
  | missing | refused => exact (append_nil _).symm
  | settled _ _ hpass =>
    rw [tryDeliver_passage hpass]
    exact passage_keep rfl rfl

theorem apply_passage {op : Op} {reports : List Event}
    (hkeep : op.discards = false) (h : q.apply op = .ok (q', reports)) :
    q'.passage = q.passage ++ (entering op q).map fun entry => cloneMessage entry.msg := by
  cases op with
  | enqueue msg env =>
    simp only [apply, Go.bind_eq_ok] at h
    obtain ⟨⟨next, err⟩, henqueue, hret⟩ := h
    cases hret
    exact enqueue_passage henqueue
  | enqueueDirect msg env =>
    simp only [apply, Go.bind_eq_ok] at h
    obtain ⟨next, hdirect, hret⟩ := h
    cases hret
    exact enqueueDirect_passage hdirect
  | dequeue visibilityTimeout pass =>
    simp only [apply, dequeue, Go.bind_eq_ok] at h
    obtain ⟨next, ⟨delivered, hpass, hnext⟩, hret⟩ := h
    cases hnext
    cases hret
    rw [tryDeliver_passage hpass]
    exact passage_keep rfl rfl
  | removeConsumer ch =>
    cases h
    refine passage_keep ?_ ?_ <;> unfold removeConsumer <;> split <;> rfl
  | ack id hook pass =>
    simp only [apply, Go.bind_eq_ok] at h
    obtain ⟨⟨⟨next, s⟩, acked, err⟩, hack, hret⟩ := h
    cases hret
    exact ackWithHook_passage hack
  | nack id requeue dropHook requeueHook now pass =>
    simp only [apply, Go.bind_eq_ok] at h
    obtain ⟨⟨⟨next, s⟩, result, err⟩, hnack, hret⟩ := h
    cases hret
    exact nackWithHooks_passage hnack
  | requeueExpired sweep group =>
    simp only [apply, requeueExpired, requeueExpiredOwn, foldl_expire_inOrder, Go.bind_eq_ok] at h
    obtain ⟨next, ⟨delivered, hpass, hgroups⟩, hret⟩ := h
    cases hret
    rw [(forGroups_sameLedger hgroups).passage, tryDeliver_passage hpass]
    refine passage_append _ ?_ rfl
    simp [swept, entering, Entry.msg, Function.comp_def]
  | extendVisibility id extension now =>
    simp only [apply, extendVisibility] at h
    split at h
    · cases h
      exact passage_keep rfl rfl
    · cases h
      exact passage_keep rfl rfl
  | remove | purge => cases hkeep
  | receive | setMaxSize | setMaxRetries | setFailurePolicy =>
    cases h
    exact passage_keep rfl rfl

section Runs
variable {name : String} {history : List Entry}

theorem EntryRuns.passage (run : EntryRuns (new name) history q) :
    q.passage = history.map fun entry => cloneMessage entry.msg :=
  run.invariant (fun history q => q.passage = history.map fun entry => cloneMessage entry.msg) rfl
    fun hpassage step => by
      cases step with
      | call op hkeep happly => rw [apply_passage hkeep happly, hpassage, map_append]

theorem EntryRuns.calm (run : EntryRuns (new name) history q) : q.Calm :=
  run.invariant (fun _ q => q.Calm) (calm_new name) fun hcalm step => by
    cases step with
    | call op _ happly =>
      have ⟨q', reports, hcall, hnext⟩ := apply_calm op hcalm
      rw [happly] at hcall
      cases hcall
      exact hnext

theorem map_msg_eq_enqueuedMessages (h : ∀ msg, .requeued msg ∉ history) :
    history.map Entry.msg = enqueuedMessages history := by
  induction history with
  | nil => rfl
  | cons entry rest ih =>
    have hrest := ih fun msg hmem => h msg (mem_cons_of_mem _ hmem)
    cases entry with
    | enqueued msg => exact congrArg (msg :: ·) hrest
    | requeued msg => exact absurd mem_cons_self (h msg)

/-- Consumers together get the messages in the order in which these entered the
pending list; if nothing is ever requeued that is the order of the enqueues.
Every further call returns. -/
theorem sent_in_entry_order (run : EntryRuns (new name) history q) :
    q.sent.map Delivery.msg <+: history.map (fun entry => cloneMessage entry.msg) ∧
      ((∀ msg, .requeued msg ∉ history) →
        q.sent.map Delivery.msg <+: (enqueuedMessages history).map cloneMessage) ∧
      ∀ op, ∃ result, q.apply op = .ok result := by
  have hsent : q.sent.map Delivery.msg <+: history.map fun entry => cloneMessage entry.msg :=
    ⟨q.messages.map cloneMessage, run.passage⟩
  refine ⟨hsent, fun hnever => ?_, fun op => ?_⟩
  · rw [← map_msg_eq_enqueuedMessages hnever, List.map_map]
    exact hsent
  · have ⟨q', reports, hcall, _⟩ := apply_calm op run.calm
    exact ⟨_, hcall⟩

end Runs

def enter : List Op → List Entry → Queue → Go (List Entry × Queue)
  | [], history, q => .ok (history, q)
  | op :: ops, history, q => do
      let (q', _) ← q.apply op
      enter ops (history ++ entering op q) q'

theorem enter_runs {ops : List Op} {start : Queue} {history history' : List Entry}
    (run : EntryRuns start history q) (hkeep : ∀ op ∈ ops, op.discards = false)
    (h : enter ops history q = .ok (history', q')) : EntryRuns start history' q' := by
  induction ops generalizing history q with
  | nil =>
    cases h
    exact run
  | cons op ops ih =>
    simp only [enter, Go.bind_eq_ok] at h
    obtain ⟨⟨next, reports⟩, happly, hrest⟩ := h
    exact ih (run.next (.call op (hkeep op mem_cons_self) happly))
      (fun other hmem => hkeep other (mem_cons_of_mem _ hmem)) hrest

/-- The first message is nacked and goes behind the second. -/
theorem sent_in_entry_order_redelivery :
    ∃ history q, enter redelivery [] (new "orders") = .ok (history, q) ∧
      q.sent.map (fun delivery => delivery.msg.id) = ["a", "b", "a"] ∧
      q.sent.map Delivery.msg <+: history.map (fun entry => cloneMessage entry.msg) := by
  have henter : ∃ history q, enter redelivery [] (new "orders") = .ok (history, q) ∧
      q.sent.map (fun delivery => delivery.msg.id) = ["a", "b", "a"] := ⟨_, _, rfl, by decide⟩
  have ⟨history, q, henter, hids⟩ := henter
  have run := enter_runs .start (by decide) henter
  exact ⟨history, q, henter, hids, (sent_in_entry_order run).1⟩

end QwerQ.Queue
