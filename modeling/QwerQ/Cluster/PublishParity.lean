import QwerQ.Broker.Imprint
import QwerQ.Replicator

/-! A publish that goes through the log of a one-node cluster, compared with one on a
single node. The command carries neither of the request's two keys, and the state machine
stores the message after it has been delivered. -/
namespace QwerQ
open Process Option Queue
variable {w : World} {q q' : Queue} {msg : Message} {passes : Env}
  {post : FSMResponse → World → Prop}

section Log
variable (cmd : PublishCommand) (hcreates : w.Gets cmd.queue)

theorem applyQueuePublish_uncreated (hq : w.queue? cmd.queue = none)
    (hfails : w.disk.fails 0) : ¬ (FSM.applyQueuePublish cmd passes).Returns w post := by
  have ⟨err, hcreate⟩ := createQueue_fails hq hfails
  simp only [FSM.applyQueuePublish, returns_bind, returns_getOrCreateQueue, hcreate]
  exact not_returns_locked rfl

include hcreates

theorem applyQueuePublish_full (hfull : (w.queueAt cmd.queue).full = true) :
    (FSM.applyQueuePublish cmd passes).Returns w fun resp w' => resp.error.isSome = true ∧
      ∀ id, w'.imprint cmd.queue id = w.imprint cmd.queue id := by
  have ⟨hnone, hready⟩ := createQueue_readies hcreates
  simp only [FSM.applyQueuePublish, returns_bind, returns_getOrCreateQueue, hnone, isSome_none,
    Bool.false_eq_true, if_false, returns_lockedPure hready.found, Queue.enqueue, hfull, if_true]
  refine ⟨w.queueAt cmd.queue, _, rfl, rfl, fun id => ?_⟩
  rw [imprint_setQueue_same hready.found, hready.imprint]

theorem returns_applyQueuePublish
    (hroom : (w.queueAt cmd.queue).full = false) :
    (FSM.applyQueuePublish cmd passes).Returns w post ↔
      ∃ q', (w.queueAt cmd.queue).enqueueDirect (FSM.publishedMessage cmd) passes = .ok q' ∧
        post ⟨none, cmd.messageID⟩ { (createQueue cmd.queue w).2.setQueue q' with
          disk := ((createQueue cmd.queue w).2.disk.write
            (Storage.saveMessage (asEnqueued (FSM.publishedMessage cmd) q' none))).2 } := by
  have ⟨hnone, hready⟩ := createQueue_readies hcreates
  simp only [FSM.applyQueuePublish, returns_bind, returns_getOrCreateQueue, hnone, isSome_none,
    Bool.false_eq_true, if_false, returns_lockedPure hready.found, Queue.enqueue, hroom,
    Go.bind_eq_ok, Go.pure_eq, saveMessage]
  constructor
  · rintro ⟨_, _, ⟨_, ⟨q', hdirect, ⟨⟩⟩, ⟨⟩⟩, hpost⟩
    exact ⟨q', hdirect, hpost⟩
  · rintro ⟨q', hdirect, hpost⟩
    exact ⟨q', _, ⟨_, ⟨q', hdirect, rfl⟩, rfl⟩, hpost⟩

/-- What the storage keeps is the message as the delivery pass has left it, if anything. -/
theorem applyQueuePublish_taken (hroom : (w.queueAt cmd.queue).full = false)
    (htaken : (w.queueAt cmd.queue).enqueueDirect (FSM.publishedMessage cmd) passes = .ok q') :
    (FSM.applyQueuePublish cmd passes).Returns w fun resp w' => resp = ⟨none, cmd.messageID⟩ ∧
      w'.imprint cmd.queue cmd.messageID = ((w.imprint cmd.queue cmd.messageID).setLive
        (some (FSM.publishedMessage cmd).body.inMillis)).setStored
          (if w.disk.fails (creationCalls cmd.queue w) then (w.imprint cmd.queue cmd.messageID).stored
            else w.recorded cmd.queue cmd.messageID
              (some (asEnqueued (FSM.publishedMessage cmd) q' none).contents)) := by
  have hready := (createQueue_readies hcreates).2
  have hcarries := enqueueDirect_carries htaken
  refine (returns_applyQueuePublish cmd hcreates hroom).mpr ⟨q', htaken, rfl, ?_⟩
  rw [imprint_disk, imprint_setQueue hready.found (enqueueDirect_name htaken), hready.imprint]
  rw [show cmd.messageID = (FSM.publishedMessage cmd).id from rfl, hcarries.latest]
  congr 1
  let final := asEnqueued (FSM.publishedMessage cmd) q' none
  by_cases hfails : w.disk.fails (creationCalls cmd.queue w)
  · have ⟨err, hwrite⟩ := Disk.write_of_fails (Storage.saveMessage final)
      ((hready.fails 0).mpr (by rwa [Nat.zero_add]))
    rw [if_pos hfails, hwrite, ← hready.imprint]
    rfl
  · have hwrite := Disk.write_of_not_fails (Storage.saveMessage final)
      (mt (hready.fails 0).mp (by rwa [Nat.zero_add]))
    have hbody : final.body = (FSM.publishedMessage cmd).body := asEnqueued_body hcarries
    have hqueue : final.queue = cmd.queue := congrArg Body.queue hbody
    have hid : final.id = cmd.messageID := congrArg Body.id hbody
    have hstored := recorded_saveMessage final (createQueue cmd.queue w).2
    rw [hqueue, hid] at hstored
    rw [if_neg hfails, hwrite, ← hready.recorded]
    exact hstored

end Log

variable {i : Imprint} {dedup : Option IdempotencyTracker}

section Publish
variable {req : PublishRequest} (env : PublishEnv)

def publishCommand (req : PublishRequest) (env : PublishEnv) (stream : Bool) : PublishCommand :=
  ⟨req.queue, publishId req env, req.payload, req.headers, unixMilli env.now, stream⟩

theorem returns_handlePublishWith {r : Replicator} {post : Except Response String → World → Prop}
    (hcommits : r.commits = true) :
    (Server.handlePublishWith (some r) req env).Returns w post ↔
      (FSM.applyPublish (publishCommand req env (w.stream? req.queue).isSome) env.enqueue).Returns w
        fun resp w' => post (match resp.error with
          | some text => .error (.error 3 text)
          | none => .ok resp.messageID) w' := by
  rw [Replicator.commits, Bool.and_eq_true, isNone_iff_eq_none] at hcommits
  simp only [Server.handlePublishWith, hcommits.1, Bool.not_true, Bool.false_eq_true, if_false,
    isStreamQueue, returns_bind, returns_look, Replicator.replicatePublish, Replicator.apply, hcommits.2,
    FSM.apply]
  constructor
  · intro h
    refine h.mono fun resp w' hpost => ?_
    cases herr : resp.error <;> simpa [herr] using hpost
  · intro h
    refine h.mono fun resp w' hpost => ?_
    cases herr : resp.error <;> simpa [herr] using hpost

variable {r : Replicator} (hcommits : r.commits = true)

section Stream
variable {sq : StreamQueue} (hstream : w.stream? req.queue = some sq)
include hstream

theorem returns_applyStreamPublish {cmd : PublishCommand}
    (hqueue : cmd.queue = req.queue) :
    (FSM.applyStreamPublish cmd).Returns w post ↔
      post (match (sq.publish (FSM.publishedMessage cmd) w.disk).2 with
        | .error err => FSM.failed err.message
        | .ok _ => ⟨none, cmd.messageID⟩)
        { w.setStream (sq.publish (FSM.publishedMessage cmd) w.disk).1.1 with
          disk := (sq.publish (FSM.publishedMessage cmd) w.disk).1.2 } := by
  have hcreate : createStreamQueue req.queue w = (none, w) := by rw [createStreamQueue, hstream]
  simp only [FSM.applyStreamPublish, returns_bind, returns_getOrCreateStreamQueue, hqueue, hcreate,
    isSome_none, Bool.false_eq_true, if_false, returns_lockedStream hstream]
  cases (sq.publish (FSM.publishedMessage cmd) w.disk).2 <;> rfl

include hcommits

theorem handlePublishWith_stream_unsaved (hfails : w.disk.fails 0) :
    (Server.handlePublishWith (some r) req env).Returns w fun answer w' => answer.toOption = none ∧
      w'.imprint req.queue (publishId req env) = w.imprint req.queue (publishId req env) := by
  have ⟨err, hpublish⟩ := sq.publish_of_fails (FSM.publishedMessage (publishCommand req env true)) hfails
  rw [returns_handlePublishWith env hcommits, hstream, FSM.applyPublish, if_pos (by rfl),
    returns_applyStreamPublish hstream rfl, isSome_some, hpublish]
  refine ⟨rfl, ?_⟩
  have hname : sq.name = req.queue := (KeyedMap.find?_eq_some_iff.mp hstream).2
  have hsame : (w.setStream sq).stream? req.queue = w.stream? req.queue := by
    rw [hstream, ← hname]
    exact World.stream?_setStream_self sq w
  have himprint : ({ w.setStream sq with disk := w.disk.called w.disk.storage } : World).imprint
      req.queue (publishId req env) =
        { w.imprint req.queue (publishId req env) with stream := (w.setStream sq).stream? req.queue } := rfl
  rw [himprint, hsame]
  rfl

theorem handlePublishWith_stream_saved (hsaves : ¬ w.disk.fails 0) :
    (Server.handlePublishWith (some r) req env).Returns w fun _ w' =>
      w'.stream? req.queue ≠ w.stream? req.queue := by
  have hname : sq.name = req.queue := (KeyedMap.find?_eq_some_iff.mp hstream).2
  rw [returns_handlePublishWith env hcommits, hstream, FSM.applyPublish, if_pos (by rfl),
    returns_applyStreamPublish hstream rfl, isSome_some, sq.publish_of_not_fails _ hsaves]
  intro hsame
  have hnext := World.stream?_setStream_self
    (sq.appended (FSM.publishedMessage (publishCommand req env true))) w
  rw [show (sq.appended _).name = req.queue from hname] at hnext
  have hseq : sq.nextSeq + 1 = sq.nextSeq :=
    congrArg StreamQueue.nextSeq (Option.some.inj (hnext.symm.trans hsame))
  exact absurd (add_eq_left.mp hseq) (by decide)

end Stream

section Queue
variable (hqueue : w.stream? req.queue = none)
include hqueue hcommits

theorem returns_handlePublishWith_queue {post : Except Response String → World → Prop} :
    (Server.handlePublishWith (some r) req env).Returns w post ↔
      (FSM.applyQueuePublish (publishCommand req env false) env.enqueue).Returns w
        fun resp w' => post (match resp.error with
          | some text => .error (.error 3 text)
          | none => .ok resp.messageID) w' := by
  rw [returns_handlePublishWith env hcommits, hqueue]
  rfl

theorem handlePublishWith_full (hfull : (w.queueAt req.queue).full = true) :
    (Server.handlePublishWith (some r) req env).Returns w fun answer w' => answer.toOption = none ∧
      w'.imprint req.queue (publishId req env) = w.imprint req.queue (publishId req env) := by
  have hcreates : (w.queue? req.queue).isSome := by
    cases hq : w.queue? req.queue with
    | some q => rfl
    | none =>
      rw [World.queueAt, hq] at hfull
      cases hfull
  rw [returns_handlePublishWith_queue env hcommits hqueue]
  refine (applyQueuePublish_full (publishCommand req env false) (.inl hcreates) hfull).mono
    fun resp w' hrefused => ⟨?_, hrefused.2 _⟩
  obtain ⟨text, htext⟩ := isSome_iff_exists.mp hrefused.1
  rw [htext]
  rfl

theorem handlePublishWith_uncreated (hq : w.queue? req.queue = none) (hfails : w.disk.fails 0) :
    ¬ (Server.handlePublishWith (some r) req env).Returns w fun _ _ => True := by
  rw [returns_handlePublishWith_queue env hcommits hqueue]
  exact applyQueuePublish_uncreated _ hq hfails

section Room
variable (hcreates : w.Gets req.queue)
  (hroom : (w.queueAt req.queue).full = false)
include hcreates hroom

theorem handlePublishWith_taken (htaken : (w.queueAt req.queue).enqueueDirect
      (FSM.publishedMessage (publishCommand req env false)) env.enqueue = .ok q') :
    (Server.handlePublishWith (some r) req env).Returns w fun answer w' =>
      answer.toOption = some (publishId req env) ∧
      w'.imprint req.queue (publishId req env) = ((w.imprint req.queue (publishId req env)).setLive
        (some (FSM.publishedMessage (publishCommand req env false)).body.inMillis)).setStored
          (if w.disk.fails (creationCalls req.queue w)
            then (w.imprint req.queue (publishId req env)).stored
            else w.recorded req.queue (publishId req env)
              (some (asEnqueued (FSM.publishedMessage (publishCommand req env false)) q' none).contents)) := by
  rw [returns_handlePublishWith_queue env hcommits hqueue]
  refine (applyQueuePublish_taken (publishCommand req env false) hcreates hroom htaken).mono
    fun resp w' ⟨hresp, himprint⟩ => ⟨?_, himprint⟩
  rw [hresp]
  rfl

theorem handlePublishWith_returns_iff :
    (Server.handlePublishWith (some r) req env).Returns w (fun _ _ => True) ↔
      ∃ q', (w.queueAt req.queue).enqueueDirect
        (FSM.publishedMessage (publishCommand req env false)) env.enqueue = .ok q' := by
  rw [returns_handlePublishWith_queue env hcommits hqueue]
  refine (returns_applyQueuePublish (publishCommand req env false) hcreates hroom).trans ?_
  simp only [and_true]
  rfl

end Room
end Queue

/-- Whatever the delivery passes meet, a publish through the log is answered as on a
single node and leaves the same. -/
def PublishAgrees (r : Replicator) (req : PublishRequest) (env : PublishEnv) (w : World) : Prop :=
  ∀ passes, (Server.handlePublishWith (some r) req { env with enqueue := passes }).Agrees
    (handlePublish req { env with enqueue := passes }) w fun answer left result right =>
      answer.toOption = result.toOption ∧
        left.imprint req.queue (publishId req env) = right.imprint req.queue (publishId req env)

/-- Both paths take the message, or both refuse it and leave its record alone. -/
inductive PublishesAlike (req : PublishRequest) (env : PublishEnv) (w : World) : Prop where
  | taken (queue : w.stream? req.queue = none) (room : (w.queueAt req.queue).full = false)
      (checked : ¬ Refused req env w) (unkeyed : Unkeyed req w) (unordered : req.orderingKey = "")
      (stores : w.Stores req.queue)
      (waits : w.disk.present = false ∨ (w.queueAt req.queue).consumers = [])
  | refused (queue : w.stream? req.queue = none) (full : (w.queueAt req.queue).full = true)
      (checked : Refused req env w)
  | full (queue : w.stream? req.queue = none) (full : (w.queueAt req.queue).full = true)
      (unkeyed : Unkeyed req w)
      (record : w.disk.fails 0 ∨ (w.imprint req.queue (publishId req env)).stored =
        w.recorded req.queue (publishId req env)
          (if w.disk.fails 1 then some (publishMessage req env).contents else none))
  | unstored (stream : w.stream? req.queue ≠ none) (fails : w.disk.fails 0)
      (checked : Refused req env w ∨ Unkeyed req w)

theorem Imprint.eq_setDedup_iff :
    i = i.setDedup dedup ↔ dedup = i.dedup := by
  cases i
  simp [setDedup, eq_comm]

theorem Imprint.eq_setStored_iff {stored : Option (SnapshotMessage × String)} :
    i = (i.setDedup dedup).setStored stored ↔ dedup = i.dedup ∧ i.stored = stored := by
  cases i
  simp [setDedup, setStored, and_comm, eq_comm]

theorem Imprint.eq_taken_iff {live live' : Option Body}
    {stored stored' : Option (SnapshotMessage × String)} :
    (i.setLive live).setStored stored = ((i.setDedup dedup).setLive live').setStored stored' ↔
      live = live' ∧ stored = stored' ∧ dedup = i.dedup := by
  cases i
  simp [setLive, setDedup, setStored, eq_comm]

/-- The outcome of a publish through the log, whatever the passes meet. -/
def Replicates (r : Replicator) (req : PublishRequest) (env : PublishEnv) (w : World)
    (answer : Option String) (imprint : Imprint) : Prop :=
  ∀ passes, (Server.handlePublishWith (some r) req { env with enqueue := passes }).Returns w
    fun result w' => result.toOption = answer ∧ w'.imprint req.queue (publishId req env) = imprint

/-- The outcome of a publish on a single node, whatever the passes meet. -/
def Publishes (req : PublishRequest) (env : PublishEnv) (w : World) (answer : Option String)
    (imprint : Imprint) : Prop :=
  ∀ passes, (handlePublish req { env with enqueue := passes }).Returns w
    fun result w' => result.toOption = answer ∧ w'.imprint req.queue (publishId req env) = imprint

variable {env}

theorem publishAgrees_iff_of_outcomes {answer answer' : Option String} {j : Imprint}
    (hleft : Replicates r req env w answer i) (hright : Publishes req env w answer' j) :
    PublishAgrees r req env w ↔ answer = answer' ∧ i = j := by
  constructor
  · intro h
    have ⟨_, _, _, _, ⟨hanswer, hleft'⟩, ⟨hresult, hright'⟩, hsame⟩ :=
      (h env.enqueue).relates (hleft env.enqueue) (hright env.enqueue)
    rw [hanswer, hresult, hleft', hright'] at hsame
    exact hsame
  · rintro ⟨hanswer, himprint⟩ passes
    refine agrees_of_returns (hleft passes) (hright passes) ?_
    rintro _ _ _ _ ⟨ha, hi⟩ ⟨hr, hj⟩
    rw [ha, hr, hi, hj]
    exact ⟨hanswer, himprint⟩

theorem publishes_refused (h : Refused req env w) :
    Publishes req env w none (w.imprint req.queue (publishId req env)) := by
  intro passes
  refine (handlePublish_refused { env with enqueue := passes } h).mono ?_
  rintro result w' ⟨hnone, rfl⟩
  exact ⟨hnone, rfl⟩

theorem publishes_unstored (hchecked : ¬ Refused req env w) (h : ¬ w.Stores req.queue) :
    Publishes req env w none
      ((w.imprint req.queue (publishId req env)).setDedup (w.keyed req env).broker.dedup) :=
  fun passes => handlePublish_unstored { env with enqueue := passes } hchecked h

theorem publishes_full (hchecked : ¬ Refused req env w) (hstores : w.Stores req.queue)
    (hfull : (w.queueAt req.queue).full = true) :
    Publishes req env w none
      (((w.imprint req.queue (publishId req env)).setDedup (w.keyed req env).broker.dedup).setStored
        (w.recorded req.queue (publishId req env) (if w.disk.fails (1 + creationCalls req.queue w)
          then some (publishMessage req env).contents else none))) :=
  fun passes => handlePublish_full { env with enqueue := passes } hchecked hstores hfull

variable (hkeeps : w.broker.KeepsKeys)

theorem handlePublish_stream (req : PublishRequest) (env : PublishEnv) (w : World) : ∃ passes,
    (handlePublish req { env with enqueue := passes }).Returns w fun _ w' =>
      w'.stream? req.queue = w.stream? req.queue := by
  have hframe {i : Imprint} {answer : Option String} {passes : Env} (hi : i.stream = w.stream? req.queue)
      (h : (handlePublish req { env with enqueue := passes }).Returns w fun result w' =>
        result.toOption = answer ∧ w'.imprint req.queue (publishId req env) = i) :
      (handlePublish req { env with enqueue := passes }).Returns w fun _ w' =>
        w'.stream? req.queue = w.stream? req.queue :=
    h.mono fun _ w' hpost => (congrArg Imprint.stream hpost.2).trans hi
  by_cases hrefused : Refused req env w
  · exact ⟨env.enqueue, hframe rfl (publishes_refused hrefused env.enqueue)⟩
  by_cases hstores : w.Stores req.queue
  · cases hfull : (w.queueAt req.queue).full with
    | true => exact ⟨env.enqueue, hframe rfl (handlePublish_full env hrefused hstores hfull)⟩
    | false =>
      have ⟨passes, q', htaken, _⟩ := enqueueDirect_early (publishMessage req env) (w.queueAt req.queue)
      exact ⟨passes, hframe rfl
        (handlePublish_taken { env with enqueue := passes } hrefused hstores hfull htaken)⟩
  · exact ⟨env.enqueue, hframe rfl (publishes_unstored hrefused hstores env.enqueue)⟩

include hcommits hkeeps

theorem publishAgrees_stream_iff (hstream : w.stream? req.queue ≠ none) :
    PublishAgrees r req env w ↔ w.disk.fails 0 ∧ (Refused req env w ∨ Unkeyed req w) := by
  have ⟨sq, hsq⟩ := ne_none_iff_exists'.mp hstream
  by_cases hfails : w.disk.fails 0
  · have hleft : Replicates r req env w none (w.imprint req.queue (publishId req env)) :=
      fun passes => handlePublishWith_stream_unsaved { env with enqueue := passes } hcommits hsq hfails
    rw [and_iff_right hfails]
    by_cases hrefused : Refused req env w
    · rw [publishAgrees_iff_of_outcomes hleft (publishes_refused hrefused)]
      exact iff_of_true ⟨rfl, rfl⟩ (.inl hrefused)
    · have hunstored : ¬ w.Stores req.queue := fun h => h 0 (Nat.zero_le _) hfails
      rw [or_iff_right hrefused, ← World.keyed_dedup_iff hkeeps hrefused,
        publishAgrees_iff_of_outcomes hleft (publishes_unstored hrefused hunstored),
        and_iff_right rfl]
      exact Imprint.eq_setDedup_iff
  · refine iff_of_false (fun h => ?_) fun h => hfails h.1
    have ⟨passes, hright⟩ := handlePublish_stream req env w
    have hleft := handlePublishWith_stream_saved { env with enqueue := passes } hcommits hsq hfails
    have ⟨_, _, _, _, hchanged, hkept, _, himprint⟩ := (h passes).relates hleft hright
    exact hchanged ((congrArg Imprint.stream himprint).trans hkept)

theorem publishAgrees_full_iff (hqueue : w.stream? req.queue = none)
    (hfull : (w.queueAt req.queue).full = true) :
    PublishAgrees r req env w ↔ Refused req env w ∨ Unkeyed req w ∧
      (w.disk.fails 0 ∨ (w.imprint req.queue (publishId req env)).stored =
        w.recorded req.queue (publishId req env)
          (if w.disk.fails 1 then some (publishMessage req env).contents else none)) := by
  have hleft : Replicates r req env w none (w.imprint req.queue (publishId req env)) :=
    fun passes => handlePublishWith_full { env with enqueue := passes } hcommits hqueue hfull
  have hcalls : creationCalls req.queue w = 0 := by
    cases hq : w.queue? req.queue with
    | some q => rw [creationCalls, hq]; rfl
    | none =>
      rw [World.queueAt, hq] at hfull
      cases hfull
  by_cases hrefused : Refused req env w
  · rw [publishAgrees_iff_of_outcomes hleft (publishes_refused hrefused)]
    exact iff_of_true ⟨rfl, rfl⟩ (.inl hrefused)
  rw [or_iff_right hrefused, ← World.keyed_dedup_iff hkeeps hrefused]
  by_cases hfails : w.disk.fails 0
  · have hunstored : ¬ w.Stores req.queue := fun h => h 0 (Nat.zero_le _) hfails
    rw [publishAgrees_iff_of_outcomes hleft (publishes_unstored hrefused hunstored),
      and_iff_right rfl, and_iff_left (.inl hfails)]
    exact Imprint.eq_setDedup_iff
  · have hstores : w.Stores req.queue := by
      intro n hn
      rw [hcalls, Nat.le_zero] at hn
      rwa [hn]
    rw [publishAgrees_iff_of_outcomes hleft (publishes_full hrefused hstores hfull),
      and_iff_right rfl, or_iff_right hfails, hcalls]
    exact Imprint.eq_setStored_iff

omit hkeeps hcommits

/-- A message in the log differs from the one of a single node by its ordering key. -/
theorem publishedMessage_body_iff :
    (FSM.publishedMessage (publishCommand req env false)).body.inMillis =
      (publishMessage req env).body.inMillis ↔ req.orderingKey = "" := by
  constructor
  · intro h
    exact (congrArg Body.orderingKey h).symm
  · intro hunordered
    simp [FSM.publishedMessage, publishCommand, publishMessage, Message.body, Body.inMillis, hunordered]

theorem publishedMessage_contents (hunordered : req.orderingKey = "") :
    (FSM.publishedMessage (publishCommand req env false)).contents =
      (publishMessage req env).contents := by
  simp [FSM.publishedMessage, publishCommand, publishMessage, Message.contents, SnapshotMessage.of,
    hunordered]

theorem asEnqueued_waits (hconsumers : q.consumers = []) (h : q.enqueueDirect msg passes = .ok q') :
    asEnqueued msg q' none = msg := by
  have hpass : Queue.tryDeliver passes.pass { q with messages := q.messages ++ [msg] } =
      .ok { q with messages := q.messages ++ [msg] } := by
    simp [Queue.tryDeliver, hconsumers]
  rw [Queue.enqueueDirect, hpass] at h
  have hmessages : q'.messages = q.messages ++ [msg] := (forGroups_sameLedger h).messages
  simp [asEnqueued, hmessages]

theorem recorded_waits (hunordered : req.orderingKey = "")
    (hwaits : w.disk.present = false ∨ (w.queueAt req.queue).consumers = [])
    (htaken : (w.queueAt req.queue).enqueueDirect
      (FSM.publishedMessage (publishCommand req env false)) passes = .ok q') :
    w.recorded req.queue (publishId req env)
        (some (asEnqueued (FSM.publishedMessage (publishCommand req env false)) q' none).contents) =
      w.recorded req.queue (publishId req env) (some (publishMessage req env).contents) := by
  rcases hwaits with hmissing | hconsumers
  · simp [World.recorded, hmissing]
  · rw [asEnqueued_waits hconsumers htaken, publishedMessage_contents hunordered]

include hcommits

theorem publishAgrees_of_taken (hrouted : (w.queueAt req.queue).Routed)
    (hqueue : w.stream? req.queue = none) (hroom : (w.queueAt req.queue).full = false)
    (hchecked : ¬ Refused req env w) (hunkeyed : Unkeyed req w) (hunordered : req.orderingKey = "")
    (hstores : w.Stores req.queue)
    (hwaits : w.disk.present = false ∨ (w.queueAt req.queue).consumers = []) :
    PublishAgrees r req env w := by
  intro passes
  let message := FSM.publishedMessage (publishCommand req env false)
  have hboth := enqueueDirect_ok_iff hrouted message (publishMessage req env) passes
  have hl := handlePublishWith_returns_iff { env with enqueue := passes } hcommits hqueue
    hstores.creates hroom
  have hr := handlePublish_returns_iff { env with enqueue := passes } hchecked hstores hroom
  by_cases htaken : ∃ q', (w.queueAt req.queue).enqueueDirect message passes = .ok q'
  · have ⟨left, hleft⟩ := htaken
    have ⟨right, hright⟩ := hboth.mp htaken
    refine agrees_of_returns
      (handlePublishWith_taken { env with enqueue := passes } hcommits hqueue hstores.creates hroom hleft)
      (handlePublish_taken { env with enqueue := passes } hchecked hstores hroom hright) ?_
    rintro _ _ _ _ ⟨ha, hi⟩ ⟨hb, hj⟩
    refine ⟨ha.trans hb.symm, hi.trans (Eq.trans ?_ hj.symm)⟩
    rw [if_neg (hstores _ (Nat.le_refl _))]
    refine Imprint.eq_taken_iff.mpr ⟨?_, ?_, ?_⟩
    · exact congrArg some (publishedMessage_body_iff.mpr hunordered)
    · exact recorded_waits hunordered hwaits hleft
    · rw [World.keyed, Broker.checkKey_unkeyed hunkeyed]
      rfl
  · exact agrees_of_fails (mt hl.mp htaken) (mt hr.mp (mt hboth.mpr htaken))

section Taken
variable (hrouted : (w.queueAt req.queue).Routed) (hqueue : w.stream? req.queue = none)
  (hroom : (w.queueAt req.queue).full = false) (h : PublishAgrees r req env w)
include hqueue h

theorem PublishAgrees.creates : w.Gets req.queue := by
  by_contra hfails
  simp only [World.Gets, not_or, Bool.not_eq_true, isSome_eq_false_iff, isNone_iff_eq_none,
    not_not] at hfails
  obtain ⟨passes, hright⟩ := handlePublish_stream req env w
  have hreturns := (h passes).1.mpr (hright.mono fun _ _ _ => trivial)
  exact handlePublishWith_uncreated { env with enqueue := passes } hcommits hqueue hfails.1 hfails.2
    hreturns

include hroom

theorem PublishAgrees.taken {answer : Option String}
    (hright : Publishes req env w answer i) : answer = some (publishId req env) := by
  have hcreates := h.creates hcommits hqueue
  obtain ⟨passes, q', htaken, _⟩ := enqueueDirect_early
    (FSM.publishedMessage (publishCommand req env false)) (w.queueAt req.queue)
  have hleft := handlePublishWith_taken { env with enqueue := passes } hcommits hqueue hcreates hroom
    htaken
  obtain ⟨_, _, _, _, ⟨ha, _⟩, ⟨hb, _⟩, hanswer, _⟩ := (h passes).relates hleft (hright passes)
  exact (hb.symm.trans hanswer.symm).trans ha

include hrouted in
theorem PublishAgrees.same (hchecked : ¬ Refused req env w) (hstores : w.Stores req.queue)
    (htaken : (w.queueAt req.queue).enqueueDirect
      (FSM.publishedMessage (publishCommand req env false)) passes = .ok q') :
    req.orderingKey = "" ∧
      w.recorded req.queue (publishId req env)
        (some (asEnqueued (FSM.publishedMessage (publishCommand req env false)) q' none).contents) =
      w.recorded req.queue (publishId req env) (some (publishMessage req env).contents) ∧
      (w.keyed req env).broker.dedup = w.broker.dedup := by
  obtain ⟨right, hright⟩ := (enqueueDirect_ok_iff hrouted _ (publishMessage req env) passes).mp
    ⟨q', htaken⟩
  have hleft := handlePublishWith_taken { env with enqueue := passes } hcommits hqueue hstores.creates
    hroom htaken
  obtain ⟨_, _, _, _, ⟨_, hi⟩, ⟨_, hj⟩, _, himprint⟩ := (h passes).relates hleft
    (handlePublish_taken { env with enqueue := passes } hchecked hstores hroom hright)
  have hsame := (hi.symm.trans himprint).trans hj
  rw [if_neg (hstores _ (Nat.le_refl _))] at hsame
  obtain ⟨hlive, hrecord, hdedup⟩ := Imprint.eq_taken_iff.mp hsame
  exact ⟨publishedMessage_body_iff.mp (Option.some.inj hlive), hrecord, hdedup⟩

end Taken

theorem publishAgrees_room_iff (hkeeps : w.broker.KeepsKeys) (hrouted : (w.queueAt req.queue).Routed)
    (hqueue : w.stream? req.queue = none) (hroom : (w.queueAt req.queue).full = false) :
    PublishAgrees r req env w ↔ ¬ Refused req env w ∧ Unkeyed req w ∧ req.orderingKey = "" ∧
      w.Stores req.queue ∧ (w.disk.present = false ∨ (w.queueAt req.queue).consumers = []) := by
  constructor
  · intro h
    have hchecked : ¬ Refused req env w := fun hrefused =>
      nomatch h.taken hcommits hqueue hroom (publishes_refused hrefused)
    have hstores : w.Stores req.queue := by
      by_contra hunstored
      exact nomatch h.taken hcommits hqueue hroom (publishes_unstored hchecked hunstored)
    obtain ⟨passes, q', htaken, _⟩ := enqueueDirect_early
      (FSM.publishedMessage (publishCommand req env false)) (w.queueAt req.queue)
    obtain ⟨hunordered, _, hdedup⟩ := h.same hcommits hrouted hqueue hroom hchecked hstores htaken
    refine ⟨hchecked, (World.keyed_dedup_iff hkeeps hchecked).mp hdedup, hunordered, hstores, ?_⟩
    by_contra hwaits
    rw [not_or, Bool.not_eq_false] at hwaits
    -- Consumers that take the message at once raise its attempt before it is stored.
    obtain ⟨passes, q', deadline, htaken, hnil, hfound⟩ := enqueueDirect_drains
      (FSM.publishedMessage (publishCommand req env false)) hrouted hwaits.2
    obtain ⟨_, hrecord, _⟩ := h.same hcommits hrouted hqueue hroom hchecked hstores htaken
    simp only [World.recorded, hwaits.1, if_true, asEnqueued, isSome_none, Bool.false_eq_true,
      if_false, hnil, hfound, List.getLast?_nil, none_or, getD_some,
      Option.some.injEq] at hrecord
    have hattempt : (0 : UInt32) + 1 = 0 := congrArg (fun contents => contents.1.attempt) hrecord
    exact absurd hattempt (by decide)
  · rintro ⟨hchecked, hunkeyed, hunordered, hstores, hwaits⟩
    exact publishAgrees_of_taken hcommits hrouted hqueue hroom hchecked hunkeyed hunordered hstores hwaits

/-- A publish through the log agrees with one on a single node in these cases only. -/
theorem publishAgrees_iff (hkeeps : w.broker.KeepsKeys) (hrouted : (w.queueAt req.queue).Routed) :
    PublishAgrees r req env w ↔ PublishesAlike req env w := by
  constructor
  · intro h
    by_cases hstream : w.stream? req.queue = none
    · cases hfull : (w.queueAt req.queue).full with
      | true =>
        rcases (publishAgrees_full_iff hcommits hkeeps hstream hfull).mp h with
          hrefused | ⟨hunkeyed, hrecord⟩
        · exact .refused hstream hfull hrefused
        · exact .full hstream hfull hunkeyed hrecord
      | false =>
        obtain ⟨hchecked, hunkeyed, hunordered, hstores, hwaits⟩ :=
          (publishAgrees_room_iff hcommits hkeeps hrouted hstream hfull).mp h
        exact .taken hstream hfull hchecked hunkeyed hunordered hstores hwaits
    · obtain ⟨hfails, hchecked⟩ := (publishAgrees_stream_iff hcommits hkeeps hstream).mp h
      exact .unstored hstream hfails hchecked
  · intro h
    cases h with
    | taken hstream hroom hchecked hunkeyed hunordered hstores hwaits =>
      exact publishAgrees_of_taken hcommits hrouted hstream hroom hchecked hunkeyed hunordered hstores
        hwaits
    | refused hstream hfull hrefused =>
      exact (publishAgrees_full_iff hcommits hkeeps hstream hfull).mpr (.inl hrefused)
    | full hstream hfull hunkeyed hrecord =>
      exact (publishAgrees_full_iff hcommits hkeeps hstream hfull).mpr (.inr ⟨hunkeyed, hrecord⟩)
    | unstored hstream hfails hchecked =>
      exact (publishAgrees_stream_iff hcommits hkeeps hstream).mpr ⟨hfails, hchecked⟩

end Publish

private def fresh : World := World.opened 0 fun _ => none

private def ordered (orderingKey : String) : PublishRequest :=
  ⟨"orders", [1], ∅, "a", "", orderingKey⟩

private def epoch : PublishEnv := ⟨0, 0, "", unixEpoch, ⟨⟨unixEpoch, []⟩, fun _ => ⟨unixEpoch, []⟩⟩⟩

theorem publishAgrees_unordered :
    fresh.broker.KeepsKeys ∧ PublishAgrees ⟨true, none⟩ (ordered "") epoch fresh := by
  have hkeeps : fresh.broker.KeepsKeys := Broker.new_keepsKeys 0
  have hrouted : (fresh.queueAt "orders").Routed := fun _ hmem => absurd hmem List.not_mem_nil
  refine ⟨hkeeps, (publishAgrees_iff rfl hkeeps hrouted).mpr
    (.taken rfl rfl ?_ (.inl rfl) rfl ?_ (.inr rfl))⟩
  · rintro (hmemory | hkey)
    · exact hmemory rfl
    · exact hkey rfl
  · intro n _ hfails
    exact hfails.2 rfl

/-- The ordering key of a publish is not in the log. -/
theorem replicated_drops_ordering_key :
    ∃ left right,
      (Server.handlePublishWith (some ⟨true, none⟩) (ordered "k") epoch).run fresh =
        (.ok (.ok "a"), left) ∧
      (handlePublish (ordered "k") epoch).run fresh = (.ok (.ok "a"), right) ∧
      (left.queueAt "orders").live.map Message.orderingKey = [""] ∧
      (right.queueAt "orders").live.map Message.orderingKey = ["k"] :=
  ⟨_, _, rfl, rfl, rfl, rfl⟩

end QwerQ
