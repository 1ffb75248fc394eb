import QwerQ.Broker.DeadLetter
import QwerQ.Broker.Refusal
import QwerQ.Broker.Retry
import QwerQ.Broker.Imprint
import QwerQ.Queue.Registry
import QwerQ.Server.Registry

/-! Which requests end the process. `GetOrCreateQueue` discards the error of a queue that
could not be stored and returns a nil pointer, with which its callers go on; and a group's
delivery pass may cut a list that is empty. Nothing else in these handlers panics. -/
namespace QwerQ
open Process Disk Option Queue World
variable {w : World} {name : String} {q : Queue}

/-- A new stream is stored by the second call, after its sequence has been read. -/
def World.GetsStream (name : String) (w : World) : Prop := (w.stream? name).isSome ∨ ¬ w.disk.fails 1

/-- The assigned consumers of every queue are registered, as in every reachable state. -/
def World.Routed (w : World) : Prop := ∀ name, (w.queueAt name).Routed

def Queue.groupAt (groupName : String) (q : Queue) : ConsumerGroup :=
  (q.groups.find? groupName).getD (ConsumerGroup.new groupName q.name)

def ConsumerGroup.joined (memberID : String) (visTimeout : Duration) (now : Time)
    (g : ConsumerGroup) : ConsumerGroup :=
  { g with members := g.members ++ [⟨memberID, g.made, visTimeout, now, none⟩], made := g.made + 1 }

/-- The group once a message has been put back and before anything is delivered. -/
def ConsumerGroup.givenBack (id : String) (msg : Message) (now : Time) (g : ConsumerGroup) :
    ConsumerGroup :=
  { g with
    inFlight := g.inFlight.erase id
    messages := g.messages ++ [⟨{ msg with visibleAt := now }, g.objectOf id⟩] }

variable {now : Time} {pass : Pass}

theorem dequeue_ok (timeout : Duration) (pass : Pass) (h : q.Routed) :
    ∃ q', q.dequeue timeout pass = .ok (q', q.made) := by
  have ⟨q', hpass⟩ := tryDeliver_ok pass (h.join ⟨q.made, timeout, none⟩ (q.made + 1))
  exact ⟨q', by rw [Queue.dequeue, hpass]; rfl⟩

section Consume
variable {queue groupName memberID : String} {visibilityTimeout : UInt32}

theorem find?_getOrCreateGroup (groupName : String) (q : Queue) :
    (q.getOrCreateGroup groupName).groups.find? groupName = some (q.groupAt groupName) := by
  unfold Queue.getOrCreateGroup Queue.groupAt KeyedMap.contains
  cases hg : q.groups.find? groupName with
  | some g => simp [hg]
  | none => exact KeyedMap.find?_insert_self q.groups (ConsumerGroup.new groupName q.name)

theorem addMember_ok_iff {timeout : Duration} {g : ConsumerGroup} :
    (∃ result, g.addMember memberID timeout now pass = .ok result) ↔
      (g.joined memberID timeout now).hasEnough pass = true := by
  rw [← ConsumerGroup.tryDeliver_ok_iff, ConsumerGroup.addMember]
  simp only [Go.bind_eq_ok, Go.pure_eq]
  constructor
  · rintro ⟨_, g', hpass, _⟩
    exact ⟨g', hpass⟩
  · rintro ⟨g', hpass⟩
    exact ⟨_, g', hpass, rfl⟩

theorem handleConsume_returns_iff (hrouted : w.Routed) :
    ((handleConsume queue visibilityTimeout groupName memberID now pass).Returns w fun _ _ => True) ↔
      w.Gets queue ∧ (groupName ≠ "" → (((w.queueAt queue).groupAt groupName).joined memberID
        (consumeTimeout visibilityTimeout) now).hasEnough pass = true) := by
  unfold handleConsume
  dsimp only
  rw [returns_getOrCreateQueue_bind (fun w' => by
    split
    · exact not_returns_locked rfl
    · rw [returns_bind]
      exact not_returns_locked rfl)]
  refine and_congr_right fun hgets => ?_
  have hfound := createQueue_found hgets
  by_cases hgroup : groupName = ""
  · rw [if_pos hgroup, returns_lockedPure hfound]
    have ⟨q', hdequeue⟩ := dequeue_ok (consumeTimeout visibilityTimeout) pass (hrouted queue)
    refine iff_of_true ⟨q', some (w.queueAt queue).made, ?_, trivial⟩ fun h => absurd hgroup h
    rw [hdequeue]
    rfl
  · rw [if_neg hgroup, returns_bind, returns_lockedPure hfound, imp_iff_right hgroup,
      ← addMember_ok_iff]
    let q := (w.queueAt queue).getOrCreateGroup groupName
    have hname : q.name = (w.queueAt queue).name :=
      (getOrCreateGroup_undisturbed groupName (w.queueAt queue)).name
    have hq : ((createQueue queue w).2.setQueue q).queue? queue = some q :=
      queue?_put q hfound hname
    have hg : q.groups.find? groupName = some ((w.queueAt queue).groupAt groupName) :=
      find?_getOrCreateGroup groupName (w.queueAt queue)
    constructor
    · rintro ⟨_, _, ⟨⟩, hret⟩
      rw [returns_lockedGroup hq hg] at hret
      have ⟨_, _, _, hbody, _⟩ := hret
      have ⟨result, hadd, _⟩ := Go.bind_eq_ok.mp hbody
      exact ⟨result, hadd⟩
    · rintro ⟨result, hadd⟩
      refine ⟨q, (), rfl, ?_⟩
      rw [returns_lockedGroup hq hg]
      exact ⟨_, _, _, Go.bind_eq_ok.mpr ⟨result, hadd, rfl⟩, trivial⟩

end Consume

section Nack
variable {id group : String} {requeue : Bool} {env : NackEnv} {msg : Message} {g : ConsumerGroup}

/-- The steps after the DLQ's `Enqueue` ignore what the storage answers. -/
theorem moveToDLQ_returns_iff (hrouted : w.Routed) :
    ((moveToDLQ name msg env).Returns w fun _ _ => True) ↔
      w.Gets (dlqName name) ∧ (w.queueAt (dlqName name)).EnqueueReturns env.enqueue := by
  rw [returns_moveToDLQ, ← enqueue_ok_iff (hrouted _) (deadLetter name msg env.moved)]
  refine and_congr_right fun _ => ?_
  simp only [← offered_iff, Go.bind_eq_ok, Go.pure_eq, and_true]
  constructor
  · rintro ⟨_, _, result, henqueue, _⟩
    exact ⟨result, henqueue⟩
  · rintro ⟨result, henqueue⟩
    exact ⟨_, _, result, henqueue, rfl⟩

/-- What a nack needs of the groups' passes and of the storage. -/
structure NackSafe (id name group : String) (requeue : Bool) (env : NackEnv) (w : World) : Prop where
  moves : w.verdict name group id requeue = some .toDLQ →
    w.Gets (dlqName name) ∧ (w.queueAt (dlqName name)).EnqueueReturns env.enqueue
  requeues : group ≠ "" → w.verdict name group id requeue = some .requeue →
    ∀ msg ∈ w.inFlightIn name group id,
      (((w.queueAt name).groupAt group).givenBack id msg env.now).hasEnough env.pass = true

theorem nackSafe_of_verdict (hdlq : w.verdict name group id requeue ≠ some .toDLQ)
    (hrequeue : group ≠ "" → w.verdict name group id requeue ≠ some .requeue) :
    NackSafe id name group requeue env w :=
  ⟨fun h => absurd h hdlq, fun hgroup h => absurd h (hrequeue hgroup)⟩

theorem Queue.nackWithHooks_ok {dropHook requeueHook : Hook Disk}
    {disk : Disk} (hrouted : q.Routed) :
    ∃ q' disk' result, q.nackWithHooks id requeue dropHook requeueHook now pass disk =
      .ok ((q', disk'), result) := by
  unfold nackWithHooks
  cases q.inFlight.find? id with
  | none => exact ⟨_, _, _, rfl⟩
  | some msg =>
    dsimp only
    cases nackVerdict q.failurePolicy q.maxRetries requeue msg.attempt with
    | toDLQ | drop => exact ⟨_, _, _, rfl⟩
    | requeue =>
      simp only [nackRequeue]
      split
      · exact ⟨_, _, _, rfl⟩
      · obtain ⟨q', hpass⟩ := tryDeliver_ok pass (show Routed { q with
            inFlight := q.inFlight.erase id
            messages := q.messages ++ [{ msg with visibleAt := now }] } from hrouted)
        exact ⟨q', _, _, Go.bind_eq_ok.mpr ⟨q', hpass, rfl⟩⟩

theorem World.Routed.setQueue {q' : Queue} (h : w.Routed) (hq : w.queue? name = some q)
    (hname : q'.name = q.name) (hrouted : q'.Routed) : (w.setQueue q').Routed := by
  intro other
  rw [queueAt_setQueue hq hname]
  split
  · exact hrouted
  · exact h other

theorem World.Routed.queue (h : w.Routed) (hq : w.queue? name = some q) : q.Routed :=
  queueAt_of_some hq ▸ h name

theorem moveToDLQ_after (msg : Message) (env : NackEnv) (q' : Queue) (h : w.Routed)
    (hq : w.queue? name = some q) (hname : q'.name = q.name) (hrouted : q'.Routed) :
    ((moveToDLQ name msg env).Returns (w.setQueue q') fun _ _ => True) ↔
      w.Gets (dlqName name) ∧ (w.queueAt (dlqName name)).EnqueueReturns env.enqueue := by
  have ⟨hsame, hdlq⟩ := dlq_setQueue _ hq hname
  have hgets : (w.setQueue q').Gets (dlqName name) ↔ w.Gets (dlqName name) := by
    rw [World.Gets, hsame]
    rfl
  rw [moveToDLQ_returns_iff (h.setQueue hq hname hrouted), hgets]
  exact and_congr_right fun _ => iff_of_eq (congrArg (EnqueueReturns env.enqueue) hdlq)

theorem nackSafe_of_toDLQ (hverdict : w.verdict name group id requeue = some .toDLQ) :
    NackSafe id name group requeue env w ↔
      w.Gets (dlqName name) ∧ (w.queueAt (dlqName name)).EnqueueReturns env.enqueue := by
  refine ⟨fun h => h.moves hverdict, fun h => ⟨fun _ => h, fun _ hrequeue => ?_⟩⟩
  rw [hverdict] at hrequeue
  cases hrequeue

theorem handleNack_own_returns_iff (h : w.Routed) (hq : w.queue? name = some q) :
    ((handleNack id name "" requeue env).Returns w fun _ _ => True) ↔
      NackSafe id name "" requeue env w := by
  have hverdict_eq : w.verdict name "" id requeue = (q.inFlight.find? id).map fun msg =>
      nackVerdict q.failurePolicy q.maxRetries requeue msg.attempt := by
    rw [World.verdict, hq, bind_some, inFlightIn_queue]
  by_cases hverdict : w.verdict name "" id requeue = some .toDLQ
  · rw [nackSafe_of_toDLQ hverdict]
    rw [hverdict_eq] at hverdict
    obtain ⟨msg, hfind, hmoves⟩ := map_eq_some_iff.mp hverdict
    rw [returns_handleNack hq hfind hmoves]
    have hrouted : q.Routed := h.queue hq
    exact moveToDLQ_after msg env { q with inFlight := q.inFlight.erase id } h hq rfl hrouted
  · rw [returns_nackSection hq]
    refine iff_of_true ?_ (nackSafe_of_verdict hverdict fun hgroup => absurd rfl hgroup)
    obtain ⟨q', disk, result, hbody⟩ : ∃ q' disk result, q.nackWithHooks id requeue
        (deleteStored name id) persistRequeue env.now env.pass w.disk = .ok ((q', disk), result) :=
      nackWithHooks_ok (h.queue hq)
    refine ⟨q', disk, result, hbody, ?_⟩
    have hstays : result.1.toDLQ ≠ true :=
      mt (Queue.nackWithHooks_answers hbody).2.moved (hverdict_eq ▸ hverdict)
    exact (returns_settleNack env result.2 hstays).mpr trivial

theorem ConsumerGroup.nackWithHooks_ok_iff {maxRetries : UInt32} {policy : FailurePolicy}
    {hook : Hook Disk} {disk : Disk} :
    (∃ result, g.nackWithHooks id requeue maxRetries policy hook now pass disk = .ok result) ↔
      ∀ entry, g.inFlight.find? id = some entry →
        nackVerdict policy maxRetries requeue entry.msg.attempt = .requeue →
        (g.givenBack id entry.message now).hasEnough pass = true := by
  unfold nackWithHooks
  cases hfind : g.inFlight.find? id with
  | none => exact iff_of_true ⟨_, rfl⟩ nofun
  | some entry =>
    simp only [Option.some.injEq, forall_eq']
    cases nackVerdict policy maxRetries requeue entry.msg.attempt with
    | toDLQ | drop => exact iff_of_true ⟨_, rfl⟩ nofun
    | requeue =>
      rw [← tryDeliver_ok_iff, givenBack, objectOf_eq hfind]
      simp only [nackRequeue, Go.bind_eq_ok, Go.pure_eq, true_imp_iff]
      exact ⟨fun ⟨_, g', hpass, _⟩ => ⟨g', hpass⟩, fun ⟨g', hpass⟩ => ⟨_, g', hpass, rfl⟩⟩

section InGroup
variable (hgroup : group ≠ "") (hq : w.queue? name = some q) (hg : q.groups.find? group = some g)
include hgroup hq hg

theorem verdict_inGroup : w.verdict name group id requeue =
    ((g.inFlight.find? id).map InFlightEntry.message).map fun msg =>
      nackVerdict q.failurePolicy q.maxRetries requeue msg.attempt := by
  rw [World.verdict, hq, bind_some, inFlightIn_group hgroup hg]

theorem nackSafe_inGroup (hverdict : w.verdict name group id requeue ≠ some .toDLQ) :
    NackSafe id name group requeue env w ↔ ∀ entry, g.inFlight.find? id = some entry →
      nackVerdict q.failurePolicy q.maxRetries requeue entry.msg.attempt = .requeue →
      (g.givenBack id entry.message env.now).hasEnough env.pass = true := by
  have hin : w.inFlightIn name group id = (g.inFlight.find? id).map InFlightEntry.message := by
    rw [World.inFlightIn, hq, bind_some, inFlightIn_group hgroup hg]
  have hat : (w.queueAt name).groupAt group = g := by
    rw [queueAt_of_some hq, Queue.groupAt, hg]
    rfl
  constructor
  · intro hsafe entry hfind hrequeue
    rw [← hat]
    refine hsafe.requeues hgroup ?_ entry.message ?_
    · rw [verdict_inGroup hgroup hq hg, hfind]
      exact congrArg some hrequeue
    · rw [hin, hfind]
      rfl
  · refine fun hready => ⟨fun hmoves => absurd hmoves hverdict, fun _ hrequeue msg hmsg => ?_⟩
    rw [hin] at hmsg
    obtain ⟨entry, hfind, hentry⟩ := map_eq_some_iff.mp hmsg
    rw [verdict_inGroup hgroup hq hg, hfind] at hrequeue
    rw [hat, ← hentry]
    exact hready entry hfind (Option.some.inj hrequeue)

theorem handleNack_group_returns_iff (h : w.Routed) :
    ((handleNack id name group requeue env).Returns w fun _ _ => True) ↔
      NackSafe id name group requeue env w := by
  rw [handleNack, returns_found hq, if_pos hgroup, returns_bind, returns_lockedGroup hq hg]
  by_cases hverdict : w.verdict name group id requeue = some .toDLQ
  · rw [nackSafe_of_toDLQ hverdict]
    rw [verdict_inGroup hgroup hq hg, map_map] at hverdict
    obtain ⟨entry, hfind, hmoves⟩ := map_eq_some_iff.mp hverdict
    let left : ConsumerGroup := { g with inFlight := g.inFlight.erase id }
    have hbody : g.nackWithHooks id requeue q.maxRetries q.failurePolicy (deleteStored name id) env.now
        env.pass w.disk = .ok ((left, w.disk), ⟨true, some entry.message, true, false⟩, none) := by
      rw [Function.comp_apply] at hmoves
      simp only [ConsumerGroup.nackWithHooks, hfind, hmoves]
      rfl
    have hrouted : q.Routed := h.queue hq
    rw [hbody, ← moveToDLQ_after entry.message env { q with groups := q.groups.insert left } h hq rfl
      hrouted]
    constructor
    · rintro ⟨_, _, _, ⟨⟩, hret⟩
      exact returns_bind.mp hret
    · intro hret
      exact ⟨_, _, _, rfl, returns_bind.mpr hret⟩
  · rw [nackSafe_inGroup hgroup hq hg hverdict, ← ConsumerGroup.nackWithHooks_ok_iff]
    constructor
    · rintro ⟨_, _, _, hbody, _⟩
      exact ⟨_, hbody⟩
    · rintro ⟨⟨⟨g', disk⟩, result⟩, hbody⟩
      have hstays : result.1.toDLQ ≠ true :=
        mt (ConsumerGroup.nackWithHooks_answers hbody).2.moved
          (verdict_inGroup hgroup hq hg ▸ hverdict)
      exact ⟨g', disk, result, hbody, (returns_settleNack env result.2 hstays).mpr trivial⟩

end InGroup

theorem handleNack_returns_iff (h : w.Routed) :
    ((handleNack id name group requeue env).Returns w fun _ _ => True) ↔
      NackSafe id name group requeue env w := by
  have hnothing (hin : w.inFlightIn name group id = none) : NackSafe id name group requeue env w := by
    have hverdict : w.verdict name group id requeue = none := by
      rw [World.verdict]
      cases hq : w.queue? name with
      | none => rfl
      | some q =>
        rw [World.inFlightIn, hq, bind_some] at hin
        rw [bind_some, hin]
        rfl
    refine nackSafe_of_verdict ?_ fun _ => ?_
    · rw [hverdict]
      exact fun h => by cases h
    · rw [hverdict]
      exact fun h => by cases h
  cases hq : w.queue? name with
  | none =>
    refine iff_of_true ?_ (hnothing ?_)
    · simp [handleNack, returns_bind, hq]
    · rw [World.inFlightIn, hq]
      rfl
  | some q =>
    by_cases hgroup : group = ""
    · subst hgroup
      exact handleNack_own_returns_iff h hq
    · cases hg : q.groups.find? group with
      | some g => exact handleNack_group_returns_iff hgroup hq hg h
      | none =>
        refine iff_of_true ?_ (hnothing ?_)
        · rw [handleNack, returns_found hq, if_pos hgroup, returns_bind, lockedGroup, returns_locked hq]
          exact ⟨q, w.disk, none, by rw [Queue.inGroup, hg], trivial⟩
        · rw [World.inFlightIn, hq, bind_some, inFlightIn_no_group hgroup hg]

end Nack

theorem retryDLQ_safe_iff {env : Nat → RetryEnv} (h : w.Routed) :
    ((retryDLQ name env).Returns w fun _ _ => True) ↔ ∀ dlq, w.queue? (dlqName name) = some dlq →
      RetryUnbroken name env dlq w := by
  cases hdlq : w.queue? (dlqName name) with
  | none =>
    exact iff_of_true (returns_lookup (fun _ => trivial) (by simp [hdlq])) fun _ h => by cases h
  | some dlq =>
    rw [retryDLQ_returns_iff (h name) hdlq]
    simp only [Option.some.injEq, forall_eq']

section Rest

theorem newCallManager_returns_iff {connID : String} (h : w.Routed) :
    ((Server.newCallManager connID pass).Returns w fun _ _ => True) ↔
      w.Gets (Server.replyQueuePrefix ++ connID) := by
  rw [Server.newCallManager, returns_getOrCreateQueue_bind (fun w' => by
    rw [returns_bind]
    exact not_returns_locked rfl)]
  refine and_iff_left_of_imp fun hgets => ?_
  have hfound := createQueue_found hgets
  rw [returns_bind, returns_lockedPure hfound]
  refine ⟨_, (), rfl, ?_⟩
  have hbounded : ((w.queueAt (Server.replyQueuePrefix ++ connID)).setMaxSize 1000).Routed := h _
  obtain ⟨q', hdequeue⟩ := dequeue_ok (60 * nanosecondsPerSecond) pass hbounded
  rw [returns_bind, returns_lockedPure (queue?_put (Queue.setMaxSize 1000 _) hfound rfl)]
  exact ⟨q', _, hdequeue, trivial⟩

theorem createStreamQueue_gets_iff (name : String) (w : World) :
    ((createStreamQueue name w).1 = none ↔ w.GetsStream name) ∧
      ((createStreamQueue name w).1 = none → ((createStreamQueue name w).2.stream? name).isSome) := by
  unfold createStreamQueue World.GetsStream
  cases hsq : w.stream? name with
  | some sq => simp [hsq]
  | none =>
    dsimp only
    generalize hread : (if w.disk.present then w.disk.read (Storage.getStreamSequence name)
      else (.ok 0, w.disk) : Except Err UInt64 × Disk) = result
    have hfails : result.2.fails 0 ↔ w.disk.fails 1 := by
      rw [← hread]
      split
      · rw [read_disk]
        rfl
      · rename_i habsent
        exact iff_of_false (fun hfails => habsent hfails.1) fun hfails => habsent hfails.1
    by_cases hrefused : w.disk.fails 1
    · have ⟨err, hwrite⟩ := write_of_fails (Storage.saveQueue name streamConfig)
        (hfails.mpr hrefused)
      simp [hwrite, hrefused]
    · have hwrite := write_of_not_fails (Storage.saveQueue name streamConfig)
        (mt hfails.mp hrefused)
      simp only [hwrite, hrefused, isSome_none, Bool.false_eq_true, not_false_eq_true, or_true,
        true_imp_iff]
      exact ⟨trivial, isSome_stream?_setStream (.inl rfl)⟩

theorem returns_getOrCreateStreamQueue_bind {next : Option String → Prog α} {post : α → World → Prop}
    (hnil : ∀ w', ¬(next none).Returns w' post) :
    (getOrCreateStreamQueue name >>= next).Returns w post ↔
      w.GetsStream name ∧ (next (some name)).Returns (createStreamQueue name w).2 post := by
  rw [returns_bind, returns_getOrCreateStreamQueue, ← (createStreamQueue_gets_iff name w).1]
  cases (createStreamQueue name w).1 with
  | none => simp
  | some err => exact iff_of_false (hnil _) nofun

theorem lockedStream_returns {body : StreamQueue → Disk → (StreamQueue × Disk) × α}
    (h : (w.stream? name).isSome) (hname : ∀ sq disk, (body sq disk).1.1.name = sq.name) :
    (lockedStream (some name) body).Returns w fun _ w' => (w'.stream? name).isSome := by
  have ⟨sq, hsq⟩ := isSome_iff_exists.mp h
  rw [returns_lockedStream hsq]
  refine isSome_stream?_setStream (.inl ?_)
  rw [hname]
  exact (KeyedMap.find?_eq_some_iff.mp hsq).2.symm

theorem readDisk_returns {view : Storage → α} (h : (w.stream? name).isSome) :
    (readDisk view).Returns w fun _ w' => (w'.stream? name).isSome := h

section Seek
variable {req : SeekRequest} {group : String} {state : ConnState}

theorem seekOffset_returns (h : (w.stream? req.queue).isSome) :
    (Server.seekOffset req group).Returns w fun _ w' => (w'.stream? req.queue).isSome := by
  have hnext (w' : World) (h' : (w'.stream? req.queue).isSome) :
      (Server.nextSequence req.queue).Returns w' fun _ w'' => (w''.stream? req.queue).isSome :=
    lockedStream_returns h' fun _ _ => rfl
  unfold Server.seekOffset
  cases req.position with
  | beginning => exact h
  | tail =>
    simp only [returns_bind]
    exact hnext w h
  | offset => exact h
  | timestamp =>
    simp only [returns_bind, returns_look]
    split
    · exact h
    rw [returns_bind]
    refine (readDisk_returns h).mono fun result w' h' => ?_
    split
    · exact h'
    split
    · simp only [returns_bind]
      exact hnext w' h'
    · exact h'
  | unknown =>
    have hcommitted : (Server.getCommittedOffset req.queue group).Returns w fun _ w' =>
        (w'.stream? req.queue).isSome := by
      simp only [Server.getCommittedOffset, returns_bind, returns_look]
      split
      · exact readDisk_returns h
      · exact h
    simp only [returns_bind]
    refine hcommitted.mono fun result w' h' => ?_
    split
    · exact h'
    split
    · exact h'
    · simp only [returns_bind]
      exact hnext w' h'

theorem seekStream_returns (h : (w.stream? req.queue).isSome) :
    (Server.seekStream req group state).Returns w fun _ _ => True := by
  rw [Server.seekStream, returns_bind]
  refine (seekOffset_returns h).mono fun result w' h' => ?_
  cases result with
  | error err => trivial
  | ok offset =>
    have hdropped : (Server.dropConsumer req.queue state.streamConsumer).Returns w' fun _ w'' =>
        (w''.stream? req.queue).isSome := by
      unfold Server.dropConsumer
      split
      · exact h'
      · refine lockedStream_returns h' fun sq disk => ?_
        dsimp only
        split <;> rfl
    simp only [returns_bind]
    refine hdropped.mono fun _ w'' h'' => ?_
    have ⟨sq, hsq⟩ := isSome_iff_exists.mp h''
    rw [returns_lockedStream hsq]
    trivial

theorem handleSeek_returns_iff :
    ((Server.handleSeek req state).Returns w fun _ _ => True) ↔ w.GetsStream req.queue := by
  rw [Server.handleSeek, returns_getOrCreateStreamQueue_bind (fun w' => by
    rw [returns_crash]
    exact id)]
  refine and_iff_left_of_imp fun hgets => ?_
  obtain ⟨hgot, hthere⟩ := createStreamQueue_gets_iff req.queue w
  exact seekStream_returns (hthere (hgot.mpr hgets))

end Seek

theorem applyPublish_returns_iff {cmd : PublishCommand} {env : Env} (h : w.Routed) :
    ((FSM.applyPublish cmd env).Returns w fun _ _ => True) ↔
      if cmd.stream then w.GetsStream cmd.queue
      else w.Gets cmd.queue ∧ (w.queueAt cmd.queue).EnqueueReturns env := by
  unfold FSM.applyPublish
  split
  · rw [FSM.applyStreamPublish, returns_getOrCreateStreamQueue_bind (fun w' => by
      rw [returns_bind]
      simp [lockedStream, returns_atomic])]
    refine and_iff_left_of_imp fun hgets => ?_
    obtain ⟨hgot, hthere⟩ := createStreamQueue_gets_iff cmd.queue w
    obtain ⟨sq, hsq⟩ := isSome_iff_exists.mp (hthere (hgot.mpr hgets))
    rw [returns_bind, returns_lockedStream hsq]
    split <;> trivial
  · rw [FSM.applyQueuePublish]
    dsimp only
    rw [returns_getOrCreateQueue_bind (fun w' => by
      rw [returns_bind]
      exact not_returns_locked rfl)]
    refine and_congr_right fun hgets => ?_
    rw [returns_bind, returns_lockedPure (createQueue_found hgets),
      ← enqueue_ok_iff (h _) (FSM.publishedMessage cmd)]
    constructor
    · rintro ⟨_, _, hbody, _⟩
      obtain ⟨result, henqueue, _⟩ := Go.bind_eq_ok.mp hbody
      exact ⟨result, henqueue⟩
    · rintro ⟨result, henqueue⟩
      refine ⟨_, _, Go.bind_eq_ok.mpr ⟨result, henqueue, rfl⟩, ?_⟩
      cases result.2 <;> trivial

end Rest

inductive Request where
  | consume (queue : String) (visibilityTimeout : UInt32) (groupName memberID : String) (now : Time)
      (pass : Pass)
  | nack (id queueName groupName : String) (requeue : Bool) (env : NackEnv)
  | retryDLQ (name : String) (env : Nat → RetryEnv)
  | newCallManager (connID : String) (pass : Pass)
  | seek (req : SeekRequest) (state : ConnState)
  | applyPublish (cmd : PublishCommand) (env : Env)

namespace Request

def handle : Request → Prog Unit
  | consume queue visibilityTimeout groupName memberID now pass => do
      let _ ← handleConsume queue visibilityTimeout groupName memberID now pass
  | nack id queueName groupName requeue env => do
      let _ ← handleNack id queueName groupName requeue env
  | retryDLQ name env => do
      let _ ← QwerQ.retryDLQ name env
  | newCallManager connID pass => do
      let _ ← Server.newCallManager connID pass
  | seek req state => do
      let _ ← Server.handleSeek req state
  | applyPublish cmd env => do
      let _ ← FSM.applyPublish cmd env

/-- What must hold before a request for its handler to return. -/
def Safe : Request → World → Prop
  | consume queue visibilityTimeout groupName memberID now pass, w =>
      w.Gets queue ∧ (groupName ≠ "" → (((w.queueAt queue).groupAt groupName).joined memberID
        (consumeTimeout visibilityTimeout) now).hasEnough pass = true)
  | nack id queueName groupName requeue env, w => NackSafe id queueName groupName requeue env w
  | retryDLQ name env, w => ∀ dlq, w.queue? (dlqName name) = some dlq → RetryUnbroken name env dlq w
  | newCallManager connID _, w => w.Gets (Server.replyQueuePrefix ++ connID)
  | seek req _, w => w.GetsStream req.queue
  | applyPublish cmd env, w =>
      if cmd.stream then w.GetsStream cmd.queue
      else w.Gets cmd.queue ∧ (w.queueAt cmd.queue).EnqueueReturns env

/-- Over any pattern of storage errors, a handler returns exactly if it gets the queue or
stream that it needs and no pass of a group panics. -/
theorem handle_returns_iff (request : Request) (h : w.Routed) :
    (request.handle.Returns w fun _ _ => True) ↔ request.Safe w := by
  cases request with
  | consume queue visibilityTimeout groupName memberID now pass =>
    rw [handle, returns_bind]
    exact handleConsume_returns_iff h
  | nack id queueName groupName requeue env =>
    rw [handle, returns_bind]
    exact handleNack_returns_iff h
  | retryDLQ name env =>
    rw [handle, returns_bind]
    exact retryDLQ_safe_iff h
  | newCallManager connID pass =>
    rw [handle, returns_bind]
    exact newCallManager_returns_iff h
  | seek req state =>
    rw [handle, returns_bind]
    exact handleSeek_returns_iff
  | applyPublish cmd env =>
    rw [handle, returns_bind]
    exact applyPublish_returns_iff h

def failing : World := World.opened 0 fun _ => some "no space left on device"

theorem failing_routed : (failing.setQueue (Queue.new "orders")).Routed := by
  intro name
  rw [queueAt_create rfl name]
  exact ((wired_opened 0 _).queues name).routed

/-- A queue that is there needs no call to be consumed from. -/
theorem handle_returns_consume : (failing.setQueue (Queue.new "orders")).Routed ∧
    (consume "orders" 30 "" "c1" 0 ⟨0, []⟩).handle.Returns (failing.setQueue (Queue.new "orders"))
      fun _ _ => True := by
  refine ⟨failing_routed, (handle_returns_iff _ failing_routed).mpr ⟨.inl ?_, ?_⟩⟩
  · rfl
  · exact fun hgroup => absurd rfl hgroup

/-- No queue or stream can be created, and each of these handlers goes on with the nil
pointer. -/
theorem handle_dereferences_nil :
    ((consume "orders" 30 "" "c1" 0 ⟨0, []⟩).handle.run failing).1 = .error .nilPointer ∧
      ((newCallManager "c1" ⟨0, []⟩).handle.run failing).1 = .error .nilPointer ∧
      ((seek ⟨"events", "", .beginning, 0, 0⟩ (.new "c1")).handle.run failing).1 =
        .error .nilPointer ∧
      ((applyPublish ⟨"orders", "a", [], ∅, 0, false⟩ ⟨⟨0, []⟩, fun _ => ⟨0, []⟩⟩).handle.run
        failing).1 = .error .nilPointer :=
  ⟨rfl, rfl, rfl, rfl⟩

end Request
end QwerQ
