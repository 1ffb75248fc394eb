import QwerQ.Queue.Attempts
import QwerQ.Queue.Registry
import QwerQ.Broker.Recovery
import QwerQ.Broker.Restart

/-! Attempt numbers over whole runs of a broker: any operations in any order, settings
that change, and restarts between operations. -/
namespace QwerQ
open List Process KeyedMap Option Queue World
variable {w w' : World} {name : String} {history : List Moment} {seen : Nat}

def World.record (name : String) (w : World) (id : String) : Option UInt32 :=
  (w.disk.storage.messages.find? (name, id)).map Message.attempt

variable {queue : String} {reports : List Queue.Event} {err : Option Err} {op : Queue.Op}
  {moment : Moment} {start : World}

theorem record_saveMessage (msg : Message) (w : World) (id : String) :
    (w.store (Storage.saveMessage msg)).record name id =
      if name = msg.queue ∧ id = msg.id then some msg.attempt else w.record name id := by
  rw [World.record, World.store, Storage.saveMessage, find?_insert, World.record]
  simp only [Prod.mk.injEq]
  split <;> rfl

theorem record_deleteMessage (queue gone : String) (w : World) (id : String) :
    (w.store (Storage.deleteMessage queue gone)).record name id =
      if name = queue ∧ id = gone then none else w.record name id := by
  rw [World.record, World.store, Storage.deleteMessage, find?_erase, World.record]
  simp only [Prod.mk.injEq]
  split <;> rfl

theorem record_deleteQueueMessages {id : String} {attempt : UInt32}
    (h : (w.store (Storage.deleteQueueMessages queue)).record name id = some attempt) :
    w.record name id = some attempt := by
  rw [World.record, World.store, Storage.deleteQueueMessages, KeyedMap.find?_filter] at h
  obtain ⟨msg, hfound, hattempt⟩ := map_eq_some_iff.mp h
  rw [World.record, (filter_eq_some_iff.mp hfound).1, map_some, hattempt]

/-- The queue's counters agree with the history up to now: `history` and the deliveries
after the first `seen` of this process. -/
structure Tracks (name : String) (history : List Moment) (seen : Nat) (w : World) : Prop where
  sound : w.disk.Sound
  home : ∀ {queue q}, w.queue? queue = some q → ∀ msg ∈ q.live, msg.queue = queue
  behind : seen ≤ (w.queueAt name).sent.length
  counts : Counts (history ++ (w.queueAt name).told seen) (w.queueAt name) (w.record name)

namespace Tracks
variable {msg : Message} {q q' : Queue}

section
variable (h : Tracks name history seen w)
include h

theorem of_records (hqueues : ∀ name, w'.queue? name = w.queue? name) (hsound : w'.disk.Sound)
    (hrecord : ∀ id attempt, w'.record name id = some attempt → .moved id ∉ history →
      w.record name id = some attempt ∨ .published id ∈ history ∧
        attempt = (lastSaved id (history ++ (w.queueAt name).told seen)).getD 0) :
    Tracks name history seen w' := by
  have hat : w'.queueAt name = w.queueAt name := by
    rw [World.queueAt, hqueues, World.queueAt]
  refine ⟨hsound, fun hq => h.home ((hqueues _).symm.trans hq), hat ▸ h.behind, ?_⟩
  rw [hat]
  refine h.counts.records fun id attempt hfound hfree => ?_
  refine (hrecord id attempt hfound fun hold => hfree (mem_append_left _ hold)).imp_right ?_
  exact And.imp_left (mem_append_left _)

theorem of_queues (hqueues : ∀ name, w'.queue? name = w.queue? name) (hdisk : w'.disk = w.disk) :
    Tracks name history seen w' := by
  refine h.of_records hqueues (hdisk ▸ h.sound) fun id attempt hfound _ => .inl ?_
  rw [World.record, hdisk] at hfound
  exact hfound

theorem mark (hmarks : moment.Marks) :
    Tracks name (history ++ [moment]) seen w where
  sound := h.sound
  home := h.home
  behind := h.behind
  counts := by
    rw [append_assoc]
    exact h.counts.mark hmarks

theorem finish :
    Tracks name (history ++ (w.queueAt name).told seen) (w.queueAt name).sent.length w where
  sound := h.sound
  home := h.home
  behind := Nat.le_refl _
  counts := by
    rw [told_length, append_nil]
    exact h.counts

theorem deleteMessage (queue id : String) :
    Tracks name history seen (w.store (Storage.deleteMessage queue id)) := by
  refine h.of_records (fun _ => rfl) ⟨h.sound.present, h.sound.faults⟩
    fun other attempt hfound _ => .inl ?_
  rw [record_deleteMessage] at hfound
  split at hfound
  · cases hfound
  · exact hfound

theorem saveMessage
    (hmsg : msg.queue = name → .moved msg.id ∉ history → .published msg.id ∈ history ∧
      msg.attempt = (lastSaved msg.id (history ++ (w.queueAt name).told seen)).getD 0) :
    Tracks name history seen (w.store (Storage.saveMessage msg)) := by
  refine h.of_records (fun _ => rfl) ⟨h.sound.present, h.sound.faults⟩
    fun id attempt hfound hfree => ?_
  rw [record_saveMessage] at hfound
  split at hfound
  · rename_i hkey
    cases hfound
    rw [hkey.2] at hfree ⊢
    exact .inr (hmsg hkey.1.symm hfree)
  · exact .inl hfound

theorem setQueue (hq : w.queue? queue = some q) (hname : q'.name = q.name)
    (hhome : ∀ msg ∈ q'.live, msg.queue = queue)
    (hcounts : queue = name → seen ≤ q'.sent.length ∧
      Counts (history ++ q'.told seen) q' (w.record name)) :
    Tracks name history seen (w.setQueue q') := by
  have hat := queueAt_setQueue hq hname name
  refine ⟨h.sound, ?_, ?_, ?_⟩
  · intro other found hfound
    by_cases hother : other = queue
    · subst hother
      rw [queue?_put q' hq hname] at hfound
      cases hfound
      exact hhome
    · have hne : other ≠ q'.name := by
        rw [hname, queue?_name hq]
        exact hother
      rw [queue?_setQueue_of_ne w hne] at hfound
      exact h.home hfound
  · rw [hat]
    split
    · rename_i heq
      exact (hcounts heq.symm).1
    · exact h.behind
  · rw [hat]
    split
    · rename_i heq
      exact (hcounts heq.symm).2
    · exact h.counts

theorem at_queue (hq : w.queue? name = some q) :
    seen ≤ q.sent.length ∧ Counts (history ++ q.told seen) q (w.record name) := by
  have hat := queueAt_of_some hq
  exact ⟨hat ▸ h.behind, hat ▸ h.counts⟩

theorem call {q q' : Queue}
    (hq : w.queue? queue = some q) (hname : q'.name = q.name)
    (hsplits : Queue.Splits op q reports q')
    (hhome : ∀ msg, .accepted msg ∈ reports → msg.queue = queue)
    (hchange : queue = name → ∀ {changed}, Queue.Change op q reports changed →
      Counts (history ++ q.told seen) changed (w.record name)) :
    Tracks name history seen (w.setQueue q') := by
  refine h.setQueue hq hname ?_ ?_
  · exact (hsplits.known (fun body => body.queue = queue) (h.home hq) hhome).1
  · intro heq
    subst heq
    have ⟨hseen, _⟩ := h.at_queue hq
    rw [hsplits.told hseen, ← append_assoc]
    refine ⟨?_, Counts.splits (hchange rfl) hsplits⟩
    rw [hsplits.sent, length_append]
    omega

theorem calls
    (hq : w.queue? queue = some q) (hop : op.message? = none)
    (hsplits : Queue.Splits op q reports q') (hname : q'.name = q.name) :
    Tracks name history seen (w.setQueue q') := by
  refine h.call hq hname hsplits ?_ ?_
  · intro msg hmsg
    have ⟨_, _, _, _, hchange, _, _⟩ := hsplits
    have haccepts := (hchange.accepts hmsg).1
    rw [hop] at haccepts
    cases haccepts
  · intro heq _ hchange
    subst heq
    exact (h.at_queue hq).2.change hop hchange

theorem enqueue {env : Env} (hq : w.queue? queue = some q)
    (hok : q.enqueue msg env = .ok (q', err)) (hhome : msg.queue = queue)
    (hnew : queue = name → .moved msg.id ∉ history → .published msg.id ∈ history ∧
      msg.id ∉ q.live.map Message.id ∧ msg.attempt = counted msg.id (history ++ q.told seen)) :
    Tracks name history seen (w.setQueue q') := by
  have hname := enqueue_name hok
  rcases enqueue_cases hok with ⟨_, rfl, _⟩ | ⟨_, _, hdirect⟩
  · exact h.of_queues (queue?_setQueue_same hq) rfl
  · have hsplits : Queue.Splits (.enqueueDirect msg env) q [.accepted msg] q' :=
      (enqueueDirect_phased rfl hdirect).splits
    refine h.call hq hname hsplits ?_ ?_
    · intro other hother
      cases mem_singleton.mp hother
      exact hhome
    · intro heq changed hchange
      subst heq
      rw [(hchange.accepts mem_cons_self).2]
      refine (h.at_queue hq).2.accept fun hfree => ?_
      have ⟨hpublished, hfacts⟩ := hnew rfl fun hold => hfree (mem_append_left _ hold)
      exact ⟨mem_append_left _ hpublished, hfacts⟩

theorem createQueue (queue : String) :
    (QwerQ.createQueue queue w).1 = none ∧
      Tracks name history seen (QwerQ.createQueue queue w).2 := by
  have ⟨hnone, hcreated⟩ := createQueue_of_sound queue h.sound
  have hat : (QwerQ.createQueue queue w).2.queueAt name = w.queueAt name := hcreated.queueAt name
  have hrecord : (QwerQ.createQueue queue w).2.record name = w.record name := by
    funext id
    rw [World.record, hcreated.messages, World.record]
  refine ⟨hnone, hcreated.sound h.sound, ?_, hat ▸ h.behind, ?_⟩
  · intro other q hq
    by_cases heq : other = queue
    · subst heq
      rw [hcreated.queue] at hq
      cases hold : w.queue? other with
      | none =>
        rw [hold] at hq
        cases hq
        exact fun _ hmsg => absurd hmsg not_mem_nil
      | some old =>
        rw [hold] at hq
        cases hq
        exact h.home hold
    · exact h.home ((hcreated.others other heq).symm.trans hq)
  · rw [hat, hrecord]
    exact h.counts

theorem restart (hrecovered : Recovered w.disk.storage w')
    (hall : (w.queueAt name).told seen = []) :
    Tracks name (history ++ [.restarted]) (w'.queueAt name).sent.length w' := by
  have hmessages : w'.disk.storage.messages = w.disk.storage.messages := by
    rw [hrecovered.contents]
  have hrecord : w'.record name = w.record name := by
    funext id
    rw [World.record, hmessages, World.record]
  have hcounts := h.counts
  rw [hall, append_nil] at hcounts
  refine ⟨hrecovered.sound, ?_, Nat.le_refl _, ?_⟩
  · intro queue q hq msg hmsg
    obtain ⟨hflying, hpending⟩ := hrecovered.pending hq
    rw [Queue.live, hflying, hpending, entries_empty, append_nil] at hmsg
    obtain ⟨stored, hstored, heq⟩ := mem_map.mp hmsg
    rw [← heq]
    exact (Storage.mem_loadMessages.mp hstored).2
  · rw [told_length, append_nil, hrecord]
    cases hq : w'.queue? name with
    | none =>
      rw [World.queueAt, hq]
      exact hcounts.restart rfl nodup_nil fun _ hmsg => absurd hmsg not_mem_nil
    | some q =>
      obtain ⟨hflying, hpending⟩ := hrecovered.pending hq
      rw [queueAt_of_some hq]
      refine hcounts.restart hflying ?_ ?_
      · rw [hpending, List.map_map]
        exact w.disk.storage.loadMessages_ids_nodup name
      · intro msg hmsg
        rw [hpending] at hmsg
        obtain ⟨stored, hstored, heq⟩ := mem_map.mp hmsg
        obtain ⟨hmem, hqueue⟩ := Storage.mem_loadMessages.mp hstored
        have hfind : w.disk.storage.messages.find? (name, stored.id) = some stored :=
          find?_eq_some_iff.mpr ⟨hmem, by rw [hqueue]⟩
        rw [← heq]
        change w.record name stored.id = some stored.attempt
        rw [World.record, hfind, map_some]

end

theorem persist
    (h : Tracks name history (w.queueAt name).sent.length w) (hmsg : msg ∈ (w.queueAt name).live)
    (hmoment : moment = .requeued msg.id msg.attempt ∨ moment = .putBack msg.id msg.attempt)
    (hqueues : ∀ name, w'.queue? name = w.queue? name) (hsound : w'.disk.Sound)
    (hrecord : ∀ id, id ≠ msg.id → w'.record name id = w.record name id)
    (hself : w'.record name msg.id = some msg.attempt) :
    Tracks name (history ++ [moment]) (w.queueAt name).sent.length w' := by
  have hat : w'.queueAt name = w.queueAt name := by
    rw [World.queueAt, hqueues, World.queueAt]
  have hcounts := h.counts
  rw [told_length, append_nil] at hcounts
  refine ⟨hsound, fun hq => h.home ((hqueues _).symm.trans hq), hat ▸ h.behind, ?_⟩
  rw [hat, told_length, append_nil]
  refine hcounts.save hmsg hmoment hrecord fun attempt hfound => ?_
  rw [hself] at hfound
  exact (Option.some.inj hfound).symm

end Tracks

variable {msg : Message} {q q' dlq : Queue} {rest : List Message}

section Operations
variable {id : String}

theorem asEnqueued_id {env : Env}
    (h : q.enqueue msg env = .ok (q', err)) : (asEnqueued msg q' err).id = msg.id := by
  rcases enqueue_cases h with ⟨_, _, rfl⟩ | ⟨_, rfl, hdirect⟩
  · rfl
  · exact congrArg Body.id (asEnqueued_body (enqueueDirect_carries hdirect))

section Within
variable (h : Tracks name history seen w)
include h

theorem lockedPure_tracks {ptr : Option String} {label : Queue → Label}
    {body : Queue → Go (Queue × α)}
    (hbody : ∀ {q q' result}, body q = .ok (q', result) → q'.name = q.name ∧
      ∃ op reports, op.message? = none ∧ Queue.Splits op q reports q') :
    (lockedPure ptr label body).Ensures w fun _ w' => Tracks name history seen w' := by
  rw [ensures_lockedPure]
  intro other q q' result _ hq hok
  have ⟨hname, op, reports, hop, hsplits⟩ := hbody hok
  exact h.calls hq hop hsplits hname

theorem handleConsume_tracks (visibilityTimeout : UInt32) (memberID : String) (now : Time)
    (pass : Pass) :
    (handleConsume queue visibilityTimeout "" memberID now pass).Ensures w
      fun _ w' => Tracks name history seen w' := by
  obtain ⟨_, hcreated⟩ := h.createQueue queue
  simp only [handleConsume, ensures_bind, ensures_getOrCreateQueue]
  refine lockedPure_tracks hcreated fun hok => ?_
  simp only [Go.bind_eq_ok, Go.pure_eq] at hok
  obtain ⟨⟨next, ch⟩, hdequeue, hret⟩ := hok
  cases hret
  refine ⟨(Queue.dequeue_joins hdequeue).2.1, .dequeue (consumeTimeout visibilityTimeout) pass, [],
    rfl, apply_splits ?_⟩
  rw [Queue.apply, hdequeue]
  rfl

theorem receive_tracks (ch : Nat) :
    (receive queue ch).Ensures w fun _ w' => Tracks name history seen w' := by
  simp only [receive, ensures_bind, ensures_getQueue]
  split
  · refine lockedPure_tracks h fun hok => ?_
    cases hok
    exact ⟨rfl, .receive ch, [], rfl, apply_splits rfl⟩
  · exact h

theorem handleUnsubscribe_tracks (memberID : String) (ch : Nat) (clock : String → Time)
    (order : List String) (pass : Pass) :
    (handleUnsubscribe queue "" memberID (some ch) clock order pass).Ensures w
      fun _ w' => Tracks name history seen w' := by
  simp only [handleUnsubscribe, ensures_bind, ensures_getQueue]
  split
  · exact h
  · simp only [ne_eq, not_true_eq_false, if_false, ensures_bind]
    refine (lockedPure_tracks h fun hok => ?_).mono fun _ _ h' => h'
    cases hok
    exact ⟨(removeConsumer_leaves ch _).1, .removeConsumer ch, [], rfl, apply_splits rfl⟩

theorem handleExtendVisibility_tracks (extensionSeconds : UInt32) (now : Time) :
    (handleExtendVisibility id queue extensionSeconds now).Ensures w
      fun _ w' => Tracks name history seen w' := by
  simp only [handleExtendVisibility, ensures_bind, ensures_getQueue]
  split
  · exact h
  · simp only [ensures_bind]
    refine (lockedPure_tracks h fun {q q' result} hok => ?_).mono fun deadline w' h' => ?_
    · have hq' : q' = (q.extendVisibility id (extensionSeconds.toNat * nanosecondsPerSecond) now).1 :=
        (congrArg Prod.fst (Except.ok.inj hok)).symm
      subst hq'
      refine ⟨?_, .extendVisibility id (extensionSeconds.toNat * nanosecondsPerSecond) now, _, rfl,
        apply_splits rfl⟩
      unfold Queue.extendVisibility
      split <;> rfl
    · split <;> exact h'

theorem requeueExpired_tracks (sweep : Sweep) (group : String → Sweep) :
    (requeueExpired queue sweep group).Ensures w fun _ w' => Tracks name history seen w' := by
  simp only [requeueExpired, ensures_bind, ensures_getQueue]
  split
  · refine lockedPure_tracks h fun hok => ?_
    simp only [Go.bind_eq_ok, Go.pure_eq] at hok
    obtain ⟨next, hexpired, hret⟩ := hok
    cases hret
    refine ⟨?_, .requeueExpired sweep group, _, rfl, apply_splits (by rw [Queue.apply, hexpired]; rfl)⟩
    simp only [Queue.requeueExpired, Queue.requeueExpiredOwn, foldl_expire_inOrder,
      Go.bind_eq_ok] at hexpired
    obtain ⟨_, hpass, hgroups⟩ := hexpired
    rw [forGroups_same hgroups]
    exact (tryDeliver_undisturbed hpass).name
  · exact h

theorem purgeQueue_tracks :
    (purgeQueue queue).Ensures w fun _ w' => Tracks name history seen w' := by
  simp only [purgeQueue, deleteQueueMessages, ensures_bind, ensures_getQueue]
  split
  · exact h
  · have hdeleted : Tracks name history seen (w.store (Storage.deleteQueueMessages queue)) :=
      h.of_records (fun _ => rfl) ⟨h.sound.present, h.sound.faults⟩
        fun _ _ hfound _ => .inl (record_deleteQueueMessages hfound)
    simp only [ensures_bind, ensures_write_sound h.sound]
    refine (lockedPure_tracks hdeleted fun hok => ?_).mono fun _ _ h' => h'
    cases hok
    exact ⟨rfl, .purge, _, rfl, apply_splits rfl⟩

theorem handleAck_tracks (pass : Pass) :
    (handleAck id queue "" pass).Ensures w fun _ w' => Tracks name history seen w' := by
  refine ensures_lookup (fun _ => h) fun q hq => ?_
  rw [if_neg (not_not_intro rfl)]
  refine ensures_locked_of hq fun q' disk result hok => ?_
  have hname := (ackWithHook_undisturbed hok).name
  have hsplits : Queue.Splits (.ack id none pass) q _ q' := (ackWithHook_phased hok).splits
  rw [(ackWithHook_cases hok).state]
  cases q.inFlight.find? id with
  | none => exact h.calls hq rfl hsplits hname
  | some msg =>
    simp only [elim_some, deleteStored, h.sound.write_eq]
    exact (h.deleteMessage queue id).calls hq rfl hsplits hname

theorem moveToDLQ_tracks {env : NackEnv} (hmoved : .moved msg.id ∈ history) :
    (moveToDLQ queue msg env).Ensures w fun _ w' => Tracks name history seen w' := by
  obtain ⟨_, hcreated⟩ := h.createQueue (dlqName queue)
  simp only [moveToDLQ, deleteMessage, saveMessage, ensures_bind, ensures_getOrCreateQueue]
  rw [ensures_lockedPure]
  intro other q q' moved hptr hq hok
  simp only [Go.bind_eq_ok, Go.pure_eq] at hok
  obtain ⟨⟨next, err⟩, henqueue, hret⟩ := hok
  cases hret
  have hother : dlqName queue = other := by
    split at hptr
    · cases hptr
    · exact Option.some.inj hptr
  have hqueued := hcreated.enqueue hq henqueue hother fun _ hfree => absurd hmoved hfree
  have hdeleted := hqueued.deleteMessage queue msg.id
  simp only [ensures_write_sound hqueued.sound, ensures_write_sound hdeleted.sound]
  refine hdeleted.saveMessage fun _ hfree => ?_
  rw [asEnqueued_id henqueue] at hfree
  exact absurd hmoved hfree

end Within

/-- A nack that moves the message to the DLQ, or that requeues it in the queue `name`. -/
def nackMoments (name id queue : String) (requeue : Bool) (w : World) : List Moment :=
  let q := w.queueAt queue
  match q.inFlight.find? id with
  | none => []
  | some msg =>
      match nackVerdict q.failurePolicy q.maxRetries requeue msg.attempt with
      | .toDLQ => [.moved id]
      | .drop => []
      | .requeue => if queue = name then [.requeued id msg.attempt] else []

section Between
variable (h : Tracks name history (w.queueAt name).sent.length w)
include h

theorem saveAndEnqueue_tracks {msg : Message} {env : Env}
    (hnew : msg.queue = name → .moved msg.id ∉ history → .published msg.id ∈ history ∧
      msg.id ∉ (w.queueAt name).live.map Message.id ∧ msg.attempt = counted msg.id history ∧
      msg.attempt = (lastSaved msg.id history).getD 0) :
    (saveAndEnqueue (some msg.queue) msg env).Ensures w fun _ w' =>
      Tracks name history (w.queueAt name).sent.length w' := by
  have hsaved : Tracks name history (w.queueAt name).sent.length
      (w.store (Storage.saveMessage msg)) := by
    refine h.saveMessage fun heq hfree => ?_
    have ⟨hpublished, _, _, hattempt⟩ := hnew heq hfree
    rw [told_length, append_nil]
    exact ⟨hpublished, hattempt⟩
  simp only [saveAndEnqueue, saveMessage, deleteMessage, enqueue, ensures_bind,
    ensures_write_sound h.sound]
  rw [ensures_lockedPure]
  intro queue q q' err hptr hq hok
  cases hptr
  have hqueued : Tracks name history (w.queueAt name).sent.length
      ((w.store (Storage.saveMessage msg)).setQueue q') := by
    refine hsaved.enqueue hq hok rfl fun heq hfree => ?_
    have ⟨hpublished, hfree, hattempt, _⟩ := hnew heq hfree
    have hat : w.queueAt name = q := queueAt_of_some (heq ▸ hq)
    rw [hat] at hfree ⊢
    rw [told_length, append_nil]
    exact ⟨hpublished, hfree, hattempt⟩
  cases err with
  | none => exact hqueued
  | some err =>
    simp only [ensures_bind, ensures_write_sound hqueued.sound]
    exact hqueued.deleteMessage msg.queue msg.id

theorem handlePublish_tracks {req : PublishRequest} {env : PublishEnv} (hid : req.messageId = "")
    (hfresh : .published env.ulid ∉ history) :
    (handlePublish req env).Ensures w fun _ w' =>
      Tracks name (history ++ [.published env.ulid]) (w.queueAt name).sent.length w' := by
  have hpublishId : publishId req env = env.ulid := by rw [publishId, if_pos hid]
  have hmarks : (Moment.published env.ulid).Marks := .inl ⟨_, rfl⟩
  have hmarked := h.mark hmarks
  have hkeyed : Tracks name (history ++ [.published env.ulid]) (w.queueAt name).sent.length
      (w.keyed req env) := hmarked.of_queues (fun other => queue?_keyed w other) rfl
  obtain ⟨hnone, hcreated⟩ := hkeyed.createQueue req.queue
  refine ensures_handlePublish env (fun _ _ => hmarked) (fun err herr => ?_) fun _ _ => ?_
  · rw [hnone] at herr
    cases herr
  have hat : (createQueue req.queue (w.keyed req env)).2.queueAt name = w.queueAt name := by
    rw [(createQueue_of_sound req.queue hkeyed.sound).2.queueAt, queueAt_keyed]
  rw [← hat] at hcreated ⊢
  have hsave := @saveAndEnqueue_tracks _ name _ hcreated (publishMessage req env) env.enqueue
  refine (hsave ?_).mono fun _ _ htracks => htracks
  intro _ hfree
  change Moment.moved (publishId req env) ∉ _ at hfree
  change Moment.published (publishId req env) ∈ _ ∧ publishId req env ∉ _ ∧
    0 = counted (publishId req env) _ ∧ 0 = (lastSaved (publishId req env) _).getD 0
  rw [hpublishId] at hfree ⊢
  have hcounts := h.counts
  rw [told_length, append_nil] at hcounts
  obtain ⟨hunheld, hcounted, hsaved⟩ := hcounts.fresh hfresh fun hold =>
    hfree (mem_append_left _ hold)
  refine ⟨mem_append_right _ mem_cons_self, hat ▸ hunheld, ?_, ?_⟩
  · rw [counted_mark hmarks, append_nil, hcounted]
  · rw [lastSaved_mark hmarks, append_nil, hsaved]

theorem nackRequeue_tracks {env : NackEnv} {requeue : Bool} (hq : w.queue? queue = some q)
    (hfind : q.inFlight.find? id = some msg)
    (hverdict : nackVerdict q.failurePolicy q.maxRetries requeue msg.attempt = .requeue)
    (hpass : Queue.tryDeliver env.pass { q with
      inFlight := q.inFlight.erase id
      messages := q.messages ++ [Queue.renewed env.now msg] } = .ok q') :
    Tracks name (history ++ if queue = name then [.requeued id msg.attempt] else [])
      (w.queueAt name).sent.length
      ((w.store (Storage.saveMessage (Queue.renewed env.now msg))).setQueue q') := by
  have hname := (tryDeliver_undisturbed hpass).name
  have hsplits : Queue.Splits (.nack id requeue none none env.now env.pass) q
      [.requeued id requeue] q' := .of_tryDeliver (.requeue hfind hverdict) hpass
  have ⟨hmem, hid⟩ := find?_eq_some_iff.mp hfind
  have hflies : msg ∈ q.live := mem_append_right _ hmem
  have hqueue : msg.queue = queue := h.home hq msg hflies
  by_cases heq : queue = name
  · subst heq
    rw [if_pos rfl, ← hid]
    have hat := queueAt_of_some hq
    have hpersisted : Tracks queue (history ++ [.requeued msg.id msg.attempt])
        (w.queueAt queue).sent.length
        (w.store (Storage.saveMessage (Queue.renewed env.now msg))) := by
      refine h.persist (hat ▸ hflies) (.inl rfl) (fun _ => rfl)
        ⟨h.sound.present, h.sound.faults⟩ ?_ ?_
      · intro other hother
        rw [record_saveMessage, if_neg fun hkey => hother hkey.2]
      · rw [record_saveMessage, if_pos ⟨hqueue.symm, rfl⟩]
        rfl
    exact hpersisted.calls hq rfl hsplits hname
  · rw [if_neg heq, append_nil]
    have hsaved : Tracks name history (w.queueAt name).sent.length
        (w.store (Storage.saveMessage (Queue.renewed env.now msg))) :=
      h.saveMessage fun hother => absurd (hqueue.symm.trans hother) heq
    exact hsaved.calls hq rfl hsplits hname

theorem handleNack_tracks (requeue : Bool) (env : NackEnv) :
    (handleNack id queue "" requeue env).Ensures w fun _ w' =>
      Tracks name (history ++ nackMoments name id queue requeue w)
        (w.queueAt name).sent.length w' := by
  refine ensures_lookup (fun hq => ?_) fun q hq => ?_
  · have hnothing : nackMoments name id queue requeue w = [] := by
      rw [nackMoments, World.queueAt, hq]
      rfl
    rw [hnothing, append_nil]
    exact h
  · rw [if_neg (not_not_intro rfl), ensures_bind, nackMoments, queueAt_of_some hq]
    refine ensures_locked_of hq fun q' disk result hok => ?_
    cases hfind : q.inFlight.find? id with
    | none =>
      simp only [Queue.nackWithHooks, hfind, Except.ok.injEq, Prod.mk.injEq] at hok
      obtain ⟨⟨rfl, rfl⟩, rfl⟩ := hok
      simp only [append_nil]
      exact h.of_queues (queue?_setQueue_same hq) rfl
    | some msg =>
      have hid : msg.id = id := (find?_eq_some_iff.mp hfind).2
      have hsettles : Queue.Splits (.nack id requeue none none env.now env.pass) q
          [.settled id .toDLQ] { q with inFlight := q.inFlight.erase id } :=
        .of_change (.settle hfind)
      cases hverdict : nackVerdict q.failurePolicy q.maxRetries requeue msg.attempt with
      | toDLQ =>
        simp only [Queue.nackWithHooks, hfind, hverdict, Queue.nackToDLQ, Except.ok.injEq,
          Prod.mk.injEq] at hok
        obtain ⟨⟨rfl, rfl⟩, rfl⟩ := hok
        have hmarks : (Moment.moved id).Marks := .inr ⟨_, rfl⟩
        simp only [hverdict]
        have hsettled := (h.mark hmarks).calls hq rfl hsettles rfl
        refine ensures_bind.mpr ((moveToDLQ_tracks hsettled ?_).mono fun _ _ h' => h')
        rw [hid]
        exact mem_append_right _ mem_cons_self
      | drop =>
        simp only [Queue.nackWithHooks, hfind, hverdict, Queue.nackDrop, deleteStored,
          h.sound.write_eq, Except.ok.injEq, Prod.mk.injEq] at hok
        obtain ⟨⟨rfl, rfl⟩, rfl⟩ := hok
        simp only [hverdict, append_nil]
        exact (h.deleteMessage queue id).calls hq rfl hsettles rfl
      | requeue =>
        simp only [Queue.nackWithHooks, hfind, hverdict, Queue.nackRequeue, persistRequeue,
          h.sound.write_eq, Go.bind_eq_ok, Go.pure_eq] at hok
        obtain ⟨next, hpass, hret⟩ := hok
        cases hret
        simp only [hverdict]
        exact nackRequeue_tracks h hq hfind hverdict hpass

end Between

/-- A retry that stopped at a full queue has put the head of the DLQ `name` back. -/
def returned (name queue : String) (left : List Message) : List Moment :=
  if dlqName queue = name then (left.take 1).map fun msg => .putBack msg.id msg.attempt else []

theorem returned_nil (name queue : String) : returned name queue [] = [] := by
  rw [returned]
  split <;> rfl

/-- The state after a round that met a full queue: the copy is deleted and the record of
the head written again. -/
def World.undone (queue : String) (msg : Message) (now : Time) (q : Queue) (w : World) : World :=
  World.store (Storage.deleteMessage queue msg.id)
    (World.store (Storage.saveMessage msg) ((w.retrying queue msg now).setQueue q))

theorem record_undone (hqueue : msg.queue = dlqName queue) (now : Time) :
    (w.undone queue msg now q).record name id =
      if name = queue ∧ id = msg.id then none
      else if name = dlqName queue ∧ id = msg.id then some msg.attempt
      else w.record name id := by
  rw [World.undone, record_deleteMessage, record_saveMessage, hqueue]
  change (if _ then none else if _ then _ else (w.retrying queue msg now).record name id) = _
  rw [World.retrying, record_deleteMessage, record_saveMessage]
  change (if _ then none else if _ then _ else if _ then none else
    if name = queue ∧ id = msg.id then _ else _) = _
  split
  · rfl
  · split <;> rfl

/-- The first `count` messages of the DLQ have moved, and the retry has ended. -/
structure Retried (name queue : String) (history : List Moment) (seen : Nat)
    (messages : List Message) (count : Nat) (w : World) : Prop where
  count_le : count ≤ messages.length
  left : (w.queueAt (dlqName queue)).messages = messages.drop count
  tracks : Tracks name
    (history ++ (messages.take count).map (fun msg => .moved msg.id) ++
      (w.queueAt name).told seen ++ returned name queue (messages.drop count))
    (w.queueAt name).sent.length w

theorem Retried.cons {messages : List Message} {count : Nat}
    (h : Retried name queue (history ++ [.moved msg.id]) seen messages count w) :
    Retried name queue history seen (msg :: messages) (count + 1) w where
  count_le := Nat.succ_le_succ h.count_le
  left := h.left
  tracks := by
    have htracks := h.tracks
    rw [append_assoc history] at htracks
    exact htracks

section Within
variable (h : Tracks name history seen w)
include h

theorem undone_tracks (now : Time) (hq : w.queue? queue = some q)
    (hdlq : w.queue? (dlqName queue) = some dlq) (hhead : dlq.messages = msg :: rest) :
    Tracks name
      (history ++ ((w.undone queue msg now q).queueAt name).told seen ++
        returned name queue dlq.messages)
      ((w.undone queue msg now q).queueAt name).sent.length (w.undone queue msg now q) := by
  have hne := dlqName_ne queue
  have hwaits : msg ∈ dlq.live := mem_append_left _ (by rw [hhead]; exact mem_cons_self)
  have hqueue : msg.queue = dlqName queue := h.home hdlq msg hwaits
  have hqueues (other : String) : (w.undone queue msg now q).queue? other = w.queue? other :=
    queue?_setQueue_same hq other
  have hat : (w.undone queue msg now q).queueAt name = w.queueAt name :=
    queueAt_setQueue_same hq name
  have hsound : (w.undone queue msg now q).disk.Sound := ⟨h.sound.present, h.sound.faults⟩
  rw [hat]
  by_cases hname : dlqName queue = name
  · subst hname
    have hheld : msg ∈ (w.queueAt (dlqName queue)).live := by
      rw [queueAt_of_some hdlq]
      exact hwaits
    rw [returned, if_pos rfl, hhead]
    refine h.finish.persist hheld (.inr rfl) hqueues hsound ?_ ?_
    · intro id hid
      rw [record_undone hqueue, if_neg fun hkey => hid hkey.2, if_neg fun hkey => hid hkey.2]
    · rw [record_undone hqueue, if_neg fun hkey => hne hkey.1, if_pos ⟨rfl, rfl⟩]
  · rw [returned, if_neg hname, append_nil]
    refine h.finish.of_records hqueues hsound fun id attempt hfound _ => .inl ?_
    rw [record_undone hqueue, if_neg fun hkey : name = dlqName queue ∧ _ => hname hkey.1.symm]
      at hfound
    split at hfound
    · cases hfound
    · exact hfound

theorem retried_tracks {env : RetryEnv} (hmoved : .moved msg.id ∈ history)
    (hq : w.queue? queue = some q) (hdlq : w.queue? (dlqName queue) = some dlq)
    (hhead : dlq.messages = msg :: rest)
    (hok : q.enqueue (retryCopy queue msg env.now) env.enqueue = .ok (q', none)) :
    Tracks name history seen (((w.retrying queue msg env.now).setQueue q').setQueue
      { dlq with messages := dlq.messages.tail }) := by
  have hsaved : Tracks name history seen
      (w.store (Storage.saveMessage (retryCopy queue msg env.now))) :=
    h.saveMessage fun _ hfree => absurd hmoved hfree
  have hcopied : Tracks name history seen (w.retrying queue msg env.now) :=
    hsaved.deleteMessage (dlqName queue) msg.id
  have hqueued := hcopied.enqueue hq hok rfl fun _ hfree => absurd hmoved hfree
  have hstill : ((w.retrying queue msg env.now).setQueue q').queue? (dlqName queue) = some dlq :=
    retrying_dlq msg env.now hq hdlq (enqueue_name hok)
  have hpops : Queue.Splits (.remove msg.id) dlq [.settled msg.id .removed]
      { dlq with messages := dlq.messages.tail } := by
    have herase : dlq.messages.tail = dlq.messages.eraseP fun other => other.id = msg.id := by
      rw [hhead, eraseP_cons_of_pos (by simp), tail_cons]
    rw [herase]
    refine .of_change (.removePending ?_)
    rw [hhead]
    exact mem_cons_self
  exact hqueued.calls hstill rfl hpops rfl

theorem retryHead_tracks {env : RetryEnv} (hq : w.queue? queue = some q)
    (hdlq : w.queue? (dlqName queue) = some dlq) (hhead : dlq.messages = msg :: rest) :
    (retryHead queue (some queue) msg env).Ensures w fun err w' =>
      match err with
      | some _ => w'.queue? (dlqName queue) = some dlq ∧
          Tracks name (history ++ (w'.queueAt name).told seen ++ returned name queue dlq.messages)
            (w'.queueAt name).sent.length w'
      | none => (w'.queue? queue).isSome ∧
          w'.queue? (dlqName queue) = some { dlq with messages := rest } ∧
          Tracks name (history ++ [.moved msg.id]) seen w' := by
  have hmarks : (Moment.moved msg.id).Marks := .inr ⟨_, rfl⟩
  have hsound : (w.store (Storage.saveMessage (retryCopy queue msg env.now))).disk.Sound :=
    ⟨h.sound.present, h.sound.faults⟩
  simp only [retryHead, saveMessage, deleteMessage, enqueue, ensures_bind,
    ensures_write_sound h.sound, ensures_write_sound hsound]
  rw [← World.retrying]
  have hkept : (w.retrying queue msg env.now).queue? queue = some q := hq
  refine ensures_lockedPure_of hkept fun q' err hok => ?_
  have hdlq' : ((w.retrying queue msg env.now).setQueue q').queue? (dlqName queue) = some dlq :=
    retrying_dlq msg env.now hq hdlq (enqueue_name hok)
  cases err with
  | some err =>
    rcases enqueue_cases hok with ⟨_, rfl, _⟩ | ⟨_, hnone, _⟩
    · have hwrote {change : Storage → Storage} : (World.store change
          ((w.retrying queue msg env.now).setQueue q')).disk.Sound :=
        ⟨h.sound.present, h.sound.faults⟩
      have hsame : ((w.retrying queue msg env.now).setQueue q').disk.Sound :=
        ⟨h.sound.present, h.sound.faults⟩
      simp only [ensures_bind, ensures_write_sound hsame, ensures_write_sound hwrote]
      exact ⟨hdlq', undone_tracks h env.now hq hdlq hhead⟩
    · cases hnone
  | none =>
    refine ensures_bind.mpr (ensures_lockedPure_of hdlq' fun popped _ hpop => ?_)
    cases hpop
    refine ⟨?_, ?_, ?_⟩
    · have hsome : ((w.retrying queue msg env.now).queue? queue).isSome := by
        rw [hkept]
        rfl
      exact isSome_queue?_setQueue (isSome_queue?_setQueue hsome)
    · refine (queue?_put { dlq with messages := dlq.messages.tail } hdlq' rfl).trans ?_
      rw [hhead, tail_cons]
    · exact retried_tracks (h.mark hmarks) (mem_append_right _ mem_cons_self) hq hdlq hhead hok

theorem retried_nil (hnil : (w.queueAt (dlqName queue)).messages = []) :
    Retried name queue history seen [] 0 w where
  count_le := Nat.le_refl 0
  left := hnil
  tracks := by
    rw [take_nil, drop_nil, map_nil, append_nil, returned_nil, append_nil]
    exact h.finish

theorem retryLoop_tracks {env : Nat → RetryEnv} (rounds retried : Nat)
    (hq : (w.queue? queue).isSome)
    (hdlq : w.queue? (dlqName queue) = some dlq) (hrounds : dlq.messages.length ≤ rounds) :
    (retryLoop queue (some queue) env rounds retried).Ensures w fun _ w' =>
      ∃ count, Retried name queue history seen dlq.messages count w' := by
  have hat := queueAt_of_some hdlq
  induction rounds generalizing w dlq history retried with
  | zero =>
    have hnil : dlq.messages = [] := length_eq_zero_iff.mp (Nat.le_zero.mp hrounds)
    rw [hnil]
    exact ⟨0, retried_nil h (by rw [hat, hnil])⟩
  | succ rounds ih =>
    obtain ⟨q, hq⟩ := isSome_iff_exists.mp hq
    simp only [retryLoop, ensures_bind, ensures_look, hdlq, bind_some]
    cases hhead : dlq.messages with
    | nil => exact ⟨0, retried_nil h (by rw [hat, hhead])⟩
    | cons msg rest =>
      simp only [head?_cons, ensures_bind]
      refine (retryHead_tracks h hq hdlq hhead).mono fun err w' hround => ?_
      cases err with
      | some err =>
        obtain ⟨hstill, htracks⟩ := hround
        refine ⟨0, Nat.zero_le _, ?_, ?_⟩
        · rw [queueAt_of_some hstill, hhead, drop_zero]
        · rw [take_zero, map_nil, append_nil, drop_zero, ← hhead]
          exact htracks
      | none =>
        obtain ⟨hsome, hpopped, htracks⟩ := hround
        have hrest : rest.length ≤ rounds := by
          rw [hhead, length_cons] at hrounds
          omega
        refine (ih htracks (retried + 1) hsome hpopped hrest (queueAt_of_some hpopped)).mono ?_
        rintro _ _ ⟨count, hretried⟩
        exact ⟨count + 1, hretried.cons⟩

theorem retryDLQ_tracks (env : Nat → RetryEnv) :
    (retryDLQ queue env).Ensures w fun _ w' =>
      ∃ count, Retried name queue history seen (w.queueAt (dlqName queue)).messages count w' := by
  refine ensures_lookup (fun hdlq => ?_) fun dlq hdlq => ?_
  · have hnil : (w.queueAt (dlqName queue)).messages = [] := by
      rw [World.queueAt, hdlq]
      rfl
    rw [hnil]
    exact ⟨0, retried_nil h hnil⟩
  · obtain ⟨hnone, htracks⟩ := h.createQueue queue
    obtain ⟨_, hcreated⟩ := createQueue_of_sound queue h.sound
    have hdlq' : (createQueue queue w).2.queue? (dlqName queue) = some dlq := by
      rw [hcreated.others _ (dlqName_ne queue), hdlq]
    simp only [ensures_bind, ensures_getOrCreateQueue, hnone, isSome_none, Bool.false_eq_true,
      if_false, ensures_look, hdlq', map_some, getD_some]
    rw [queueAt_of_some hdlq]
    refine retryLoop_tracks htracks _ 0 ?_ hdlq' (Nat.le_refl _)
    rw [hcreated.queue]
    rfl

end Within

end Operations

namespace BrokerOp

/-- What an operation does to the messages of the queue `name`. -/
def moments (name : String) (op : BrokerOp) (w w' : World) : List Moment :=
  let told := (w'.queueAt name).told (w.queueAt name).sent.length
  match op with
  | .publish _ env => .published env.ulid :: told
  | .nack id queue requeue _ => nackMoments name id queue requeue w ++ told
  | .retryDLQ queue _ =>
      let pending := (w.queueAt (dlqName queue)).messages
      let left := (w'.queueAt (dlqName queue)).messages
      (pending.take (pending.length - left.length)).map (fun msg => .moved msg.id) ++ told ++
        returned name queue left
  | _ => told

def Generates (history : List Moment) : BrokerOp → Prop
  | .publish req env => req.messageId = "" ∧ .published env.ulid ∉ history
  | _ => True

theorem program_tracks {op : BrokerOp} (h : Tracks name history (w.queueAt name).sent.length w)
    (hgenerates : op.Generates history) :
    op.program.Ensures w fun _ w' =>
      Tracks name (history ++ op.moments name w w') (w'.queueAt name).sent.length w' := by
  have hplain {α : Type} {program : Prog α} (hensures : program.Ensures w fun _ w' =>
      Tracks name history (w.queueAt name).sent.length w') :
      (do let _ ← program).Ensures w fun _ w' => Tracks name
        (history ++ (w'.queueAt name).told (w.queueAt name).sent.length)
        (w'.queueAt name).sent.length w' := by
    rw [ensures_bind]
    exact hensures.mono fun _ _ h' => h'.finish
  cases op with
  | publish req env =>
    refine ensures_bind.mpr ((handlePublish_tracks h hgenerates.1 hgenerates.2).mono fun _ w' h' => ?_)
    have hfinished := h'.finish
    rw [append_assoc] at hfinished
    exact hfinished
  | consume queue visibilityTimeout memberID now pass =>
    exact hplain (handleConsume_tracks h visibilityTimeout memberID now pass)
  | receive queue ch => exact (receive_tracks h ch).mono fun _ _ h' => h'.finish
  | ack id queue pass => exact hplain (handleAck_tracks h pass)
  | nack id queue requeue env =>
    refine ensures_bind.mpr ((handleNack_tracks h requeue env).mono fun _ w' h' => ?_)
    have hfinished := h'.finish
    rw [append_assoc] at hfinished
    exact hfinished
  | extendVisibility id queue extensionSeconds now =>
    exact hplain (handleExtendVisibility_tracks h extensionSeconds now)
  | requeueExpired queue sweep group =>
    exact (requeueExpired_tracks h sweep group).mono fun _ _ h' => h'.finish
  | removeConsumer queue memberID ch clock order pass =>
    exact hplain (handleUnsubscribe_tracks h memberID ch clock order pass)
  | retryDLQ queue env =>
    refine ensures_bind.mpr ((retryDLQ_tracks h env).mono fun _ w' ⟨count, h'⟩ => ?_)
    have htracks := h'.tracks
    have hcount : (w.queueAt (dlqName queue)).messages.length -
        (w'.queueAt (dlqName queue)).messages.length = count := by
      rw [h'.left, length_drop]
      have hle := h'.count_le
      omega
    rw [← h'.left] at htracks
    change Tracks name (history ++ (BrokerOp.retryDLQ queue env).moments name w w') _ w'
    simpa only [moments, hcount, append_assoc] using htracks
  | purge queue => exact hplain (purgeQueue_tracks h)

end BrokerOp

def Queue.withSettings (settings : Settings) (q : Queue) : Queue :=
  ((q.setMaxSize settings.maxSize).setMaxRetries settings.maxRetries).setFailurePolicy
    settings.failurePolicy

namespace Attempts

inductive Step (name : String) : List Moment → World → List Moment → World → Prop where
  | call {history : List Moment} {w w' : World} (op : BrokerOp) : op.Generates history →
      op.program.run w = (.ok (), w') → Step name history w (op.moments name w w') w'
  | configure {history : List Moment} {w : World} {queue : String} {q : Queue}
      (settings : Settings) : w.queue? queue = some q →
      Step name history w [] (w.setQueue (q.withSettings settings))
  | restart {history : List Moment} {w w' : World} (start : Restart) :
      (loadFromStorage start.order start.env).run (w.restarted start.memoryLimit) =
        (.ok none, w') →
      Step name history w [.restarted] w'

abbrev Runs (name : String) := Run (Step name)

/-- Nothing has been published yet. The storage, which does not fail, may hold
configurations. -/
structure Blank (w : World) : Prop where
  sound : w.disk.Sound
  queues : ∀ name, w.queue? name = none
  messages : w.disk.storage.messages = ∅

theorem Blank.tracks (h : Blank w) (name : String) :
    Tracks name [] (w.queueAt name).sent.length w := by
  have hat : w.queueAt name = Queue.new name := by
    rw [World.queueAt, h.queues]
    rfl
  have hrecord : w.record name = fun _ => none := by
    funext id
    rw [World.record, h.messages]
    rfl
  refine ⟨h.sound, ?_, Nat.le_refl _, ?_⟩
  · intro queue q hq
    rw [h.queues] at hq
    cases hq
  · rw [told_length, hat, hrecord]
    exact counts_new name

theorem Step.tracks {moments : List Moment} (step : Step name history w moments w')
    (h : Tracks name history (w.queueAt name).sent.length w) :
    Tracks name (history ++ moments) (w'.queueAt name).sent.length w' := by
  cases step with
  | call op hgenerates hrun => exact ensures_iff.mp (BrokerOp.program_tracks h hgenerates) _ _ hrun
  | @configure queue q settings hq =>
    have hsplits : Queue.Splits (.setMaxRetries settings.maxRetries) q [] (q.withSettings settings) :=
      .of_change (.configure rfl rfl rfl rfl)
    have hconfigured := h.calls hq rfl hsplits rfl
    have hat := queueAt_setQueue hq (show (q.withSettings settings).name = q.name from rfl) name
    have hsent : ((w.setQueue (q.withSettings settings)).queueAt name).sent.length =
        (w.queueAt name).sent.length := by
      rw [hat]
      split
      · rename_i heq
        rw [heq, queueAt_of_some hq]
        rfl
      · rfl
    rw [append_nil, hsent]
    exact hconfigured
  | restart start hrun =>
    have ⟨_, hran, hrecovered⟩ :=
      restarted_recovers start.memoryLimit start.order start.env h.sound
    cases hrun.symm.trans hran
    exact h.restart hrecovered (told_length _)

theorem Runs.tracks (run : Runs name start history w) (h : Blank start) :
    Tracks name history (w.queueAt name).sent.length w :=
  run.invariant (fun history w => Tracks name history (w.queueAt name).sent.length w) (h.tracks name)
    fun htracks step => step.tracks htracks

/-- In every run, with restarts between operations, a delivery of a message that was not
moved to or from a DLQ carries 1 if it is the first, and one more than the previous one in
the same process. After a restart it carries one more than at the last requeue exactly if
no other counter was stored: a retry of the DLQ that puts a message back stores its counter. -/
theorem deliveries_numbered {start : World} (hstart : Blank start) (run : Runs name start history w) :
    ∀ before id attempt after, history = before ++ .delivered id attempt :: after →
      .moved id ∉ before →
      ((∀ number, .delivered id number ∉ before) → attempt = 1) ∧
      (∀ previous, lastDelivered id before = some previous → attempt = previous + 1) ∧
      (Numbered before id attempt ↔ (lastDelivered id before = none →
        (lastSaved id before).getD 0 = (lastRequeued id before).getD 0)) ∧
      ((∀ number, .putBack id number ∉ before) → Numbered before id attempt) := by
  intro before id attempt after hsplit hfree
  have htruthful := (run.tracks hstart).counts.truthful
  rw [Queue.told_length, List.append_nil] at htruthful
  have htallied := htruthful before (.delivered id attempt) after hsplit hfree
  refine ⟨htallied.first, fun _ => htallied.next, htallied.numbered_iff, fun hkept => ?_⟩
  rw [htallied.numbered_iff, lastSaved_eq_lastRequeued hkept]
  exact fun _ => rfl

theorem Runs.call (run : Runs name start history w) (op : BrokerOp)
    (hgenerates : op.Generates history) (hok : (op.program.run w).1 = .ok ()) :
    Runs name start (history ++ op.moments name w (op.program.run w).2) (op.program.run w).2 :=
  run.next (.call op hgenerates (Prod.ext hok rfl))

def retried : World :=
  ((BrokerOp.nack "a" "orders" true ⟨1, ⟨1, []⟩, 1, Queue.quiet⟩).program.run
    ((BrokerOp.receive "orders" 0).program.run delivered).2).2

def redelivered : World :=
  ((BrokerOp.consume "orders" 30 "c" 2 ⟨2, []⟩).program.run
    ((loadFromStorage [] fun _ => Queue.quiet).run (retried.restarted 0)).2).2

def beforeRedelivery : List Moment :=
  [.published "a", .delivered "a" 1, .requeued "a" 1, .delivered "a" 2, .restarted]

theorem redelivered_runs :
    Runs "orders" (World.fresh 0) (beforeRedelivery ++ [.delivered "a" 2]) redelivered := by
  have hconsumed : Runs "orders" (World.fresh 0) [] _ :=
    Runs.call .start (.consume "orders" 30 "c" 0 ⟨0, []⟩) trivial rfl
  have hdelivered : Runs "orders" (World.fresh 0) [.published "a", .delivered "a" 1] delivered :=
    hconsumed.call (.publish orderRequest ⟨0, 0, "a", 0, Queue.quiet⟩) ⟨rfl, not_mem_nil⟩ rfl
  have hreceived : Runs "orders" (World.fresh 0) [.published "a", .delivered "a" 1] _ :=
    hdelivered.call (.receive "orders" 0) trivial rfl
  have hretried : Runs "orders" (World.fresh 0)
      [.published "a", .delivered "a" 1, .requeued "a" 1, .delivered "a" 2] retried :=
    hreceived.call (.nack "a" "orders" true ⟨1, ⟨1, []⟩, 1, Queue.quiet⟩) trivial rfl
  have hrestarted : Runs "orders" (World.fresh 0) beforeRedelivery _ :=
    hretried.next (.restart ⟨0, [], fun _ => Queue.quiet⟩ (Prod.ext rfl rfl))
  exact hrestarted.call (.consume "orders" 30 "c" 2 ⟨2, []⟩) trivial rfl

theorem blank_fresh (memoryLimit : UInt64) : Blank (World.fresh memoryLimit) :=
  ⟨⟨rfl, rfl⟩, fun _ => rfl, rfl⟩

/-- The delivery after the restart carries one more than the nacked one did. -/
theorem deliveries_numbered_restart :
    lastRequeued "a" beforeRedelivery = some 1 ∧ Numbered beforeRedelivery "a" 2 :=
  ⟨by decide, (deliveries_numbered (blank_fresh 0) redelivered_runs beforeRedelivery "a" 2 [] rfl
    (by decide)).2.2.2 (by simp [beforeRedelivery])⟩

def beforePutBack : List Moment := [.published "x", .published "a", .delivered "a" 1]

/-- A message published to `orders.dlq` is delivered there and its lease expires. A retry
finds `orders` full and puts it back, with the attempt that the delivery counted; after a
restart it is delivered as the second. -/
theorem putBack_counts_expired : ∃ w,
    Runs "orders.dlq" (World.fresh 0)
      (beforePutBack ++ [.putBack "a" 1, .restarted] ++ [.delivered "a" 2]) w ∧
    lastRequeued "a" (beforePutBack ++ [.putBack "a" 1, .restarted]) = none ∧
    ¬ Numbered (beforePutBack ++ [.putBack "a" 1, .restarted]) "a" 2 := by
  have hfilled : Runs "orders.dlq" (World.fresh 0) [.published "x"] _ :=
    Runs.call .start (.publish orderRequest ⟨0, 0, "x", 0, Queue.quiet⟩) ⟨rfl, not_mem_nil⟩ rfl
  have hlimited : Runs "orders.dlq" (World.fresh 0) [.published "x"] _ :=
    hfilled.next (@Step.configure _ _ _ "orders" _ ⟨1, 5, .dlq⟩ rfl)
  have hconsumed : Runs "orders.dlq" (World.fresh 0) [.published "x"] _ :=
    hlimited.call (.consume "orders.dlq" 30 "c" 0 ⟨0, []⟩) trivial rfl
  have hdelivered : Runs "orders.dlq" (World.fresh 0) beforePutBack _ :=
    hconsumed.call (.publish { orderRequest with queue := "orders.dlq" } ⟨0, 0, "a", 0, Queue.quiet⟩)
      ⟨rfl, by decide⟩ rfl
  have hexpired : Runs "orders.dlq" (World.fresh 0) beforePutBack _ :=
    hdelivered.call (.requeueExpired "orders.dlq" ⟨31000000000, ["a"], ⟨31000000000, []⟩⟩
      fun _ => ⟨0, [], ⟨0, []⟩⟩) trivial rfl
  have hputBack : Runs "orders.dlq" (World.fresh 0) (beforePutBack ++ [.putBack "a" 1]) _ :=
    hexpired.call (.retryDLQ "orders" fun _ => ⟨31000000000, Queue.quiet⟩) trivial rfl
  have hrestarted : Runs "orders.dlq" (World.fresh 0)
      (beforePutBack ++ [.putBack "a" 1, .restarted]) _ :=
    hputBack.next (.restart ⟨0, [], fun _ => Queue.quiet⟩ (Prod.ext rfl rfl))
  have hagain : Runs "orders.dlq" (World.fresh 0)
      (beforePutBack ++ [.putBack "a" 1, .restarted] ++ [.delivered "a" 2]) _ :=
    hrestarted.call (.consume "orders.dlq" 30 "c" 32000000000 ⟨32000000000, []⟩) trivial rfl
  refine ⟨_, hagain, rfl, fun h => ?_⟩
  exact absurd (h.again rfl) (by decide)

end Attempts

end QwerQ
