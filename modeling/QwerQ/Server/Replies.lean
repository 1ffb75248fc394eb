import QwerQ.Broker.Recovery
import QwerQ.Queue.Live
import QwerQ.Server.Calls

/-! What a call manager leaves of the replies that it has handled. It settles them by itself:
a reply without a correlation id is passed over, and any other is acked in memory alone. -/
namespace QwerQ
open Process
variable {w : World} {replyQ id : String}

/-- What `handleReply` does to the broker; the routing to the calls does not touch it. -/
def handleReply (manager : CallManager) (msg : Message) (pass : Pass) : Prog Unit := do
  if msg.correlationID = "" then return ()
  if ← getQueue manager.replyQ then
    lockedPure (some manager.replyQ) (fun _ => .silent) fun q => do
      let ((q, _), _) ← q.ackWithHook msg.id Hook.none pass ()
      return (q, ())

structure Consumed (replyQ id : String) (w : World) : Prop where
  live : id ∉ w.liveIds replyQ
  stored : ¬w.HasRecord replyQ id

/-- What has to be the case before the manager handles the reply. -/
structure Settleable (replyQ : String) (msg : Message) (w : World) : Prop where
  pending : msg.id ∉ (w.queueAt replyQ).messages.map Message.id
  inFlight : msg.correlationID = "" → (w.queueAt replyQ).inFlight.find? msg.id = none
  stored : ¬w.HasRecord replyQ msg.id

theorem notMem_liveIds : id ∉ w.liveIds replyQ ↔ id ∉ (w.queueAt replyQ).ids := by
  rw [World.liveIds_eq, Queue.mem_ids_iff_live]

theorem Queue.notMem_ids_ack {q q' : Queue} {pass : Pass} {s : Unit} {result : Bool × Option Err}
    (h : q.ackWithHook id Hook.none pass () = .ok ((q', s), result)) :
    id ∉ q'.ids ↔ id ∉ q.messages.map Message.id := by
  rw [ack_ids h]
  by_cases hpending : id ∈ q.messages.map Message.id
  · have hkept : q.settles id = false := by simp [settles, hpending]
    rw [hkept]
    exact iff_of_false (fun hnot => hnot (.inl hpending)) fun hnot => hnot hpending
  · refine iff_of_true ?_ hpending
    cases hfind : q.inFlight.find? id with
    | none =>
      have hmissing : q.settles id = false := by simp [settles, hfind]
      rw [hmissing]
      rintro (hmem | hmem)
      · exact hpending hmem
      · rw [hfind] at hmem
        cases hmem
    | some msg =>
      have hsettles : q.settles id = true := by simp [settles, hfind, hpending]
      rw [hsettles]
      exact fun hmem => hmem.2 rfl

section HandleReply
variable {manager : CallManager} {msg : Message}

theorem handleReply_ignored (h : msg.correlationID = "") (pass : Pass) :
    (handleReply manager msg pass).run w = (.ok (), w) := by
  rw [handleReply, if_pos h]
  rfl

theorem handleReply_acked (h : msg.correlationID ≠ "") (hrouted : (w.queueAt manager.replyQ).Routed)
    (pass : Pass) : (handleReply manager msg pass).Returns w fun _ w' =>
      (msg.id ∉ (w'.queueAt manager.replyQ).ids ↔
        msg.id ∉ (w.queueAt manager.replyQ).messages.map Message.id) ∧ w'.disk = w.disk := by
  rw [handleReply, if_neg h]
  simp only [returns_bind, returns_getQueue]
  cases hq : w.queue? manager.replyQ with
  | none =>
    refine ⟨?_, rfl⟩
    rw [World.queueAt, hq]
    exact iff_of_true (by rw [Option.getD_none, Queue.new_ids]; exact Set.notMem_empty _)
      List.not_mem_nil
  | some q =>
    rw [World.queueAt_of_some hq] at hrouted ⊢
    obtain ⟨q', s, result, hack, hstays⟩ := Queue.ackWithHook_routed msg.id Hook.none pass () hrouted
    simp only [Option.isSome_some, if_true]
    refine (returns_lockedPure hq).mpr ⟨q', (), by rw [hack]; rfl, ?_, rfl⟩
    rw [World.queueAt_of_some (World.queue?_put q' hq hstays.name)]
    exact Queue.notMem_ids_ack hack

end HandleReply

theorem handlePublish_stores (hsound : w.disk.Sound) (req : PublishRequest) (env : PublishEnv) :
    (handlePublish req env).Ensures w fun result w' =>
      ∀ id, result = .ok id → w'.HasRecord req.queue id := by
  refine ensures_handlePublish env (by rintro _ _ _ ⟨⟩) (by rintro _ _ _ ⟨⟩) fun _ _ => ?_
  have hkeyed : (w.keyed req env).disk.Sound := hsound
  have hcreated := (createQueue_of_sound req.queue hkeyed).2.sound hkeyed
  simp only [saveAndEnqueue, saveMessage, enqueue, ensures_bind, ensures_write_sound hcreated,
    ensures_lockedPure]
  intro name q q' err _ _ _
  cases err with
  | some err =>
    simp only [ensures_bind, deleteMessage]
    refine ensures_write.mpr ?_
    split <;> rintro _ ⟨⟩
  | none =>
    rintro id ⟨⟩
    exact World.hasRecord_saveMessage.mpr (.inl ⟨rfl, rfl⟩)

/-- Over a storage, a reply is not settleable when it has been published. -/
theorem handlePublish_unsettleable (hsound : w.disk.Sound) (req : PublishRequest) (env : PublishEnv) :
    (handlePublish req env).Ensures w fun result w' =>
      ∀ msg : Message, result = .ok msg.id → ¬Settleable req.queue msg w' :=
  (handlePublish_stores hsound req env).mono fun _ _ hstored msg hid h => h.stored (hstored msg.id hid)

theorem Consumed.restarted (h : Consumed replyQ id w) (hsound : w.disk.Sound) (memoryLimit : UInt64)
    (order : List String) (env : Message → Env) :
    ∃ w', (loadFromStorage order env).run (w.restarted memoryLimit) = (.ok none, w') ∧
      id ∉ w'.liveIds replyQ := by
  obtain ⟨w', hrun, hrecovered⟩ := restarted_recovers memoryLimit order env hsound
  refine ⟨w', hrun, notMem_liveIds.mpr ?_⟩
  cases hq : w'.queue? replyQ with
  | none =>
    rw [World.queueAt, hq, Option.getD_none, Queue.new_ids]
    exact Set.notMem_empty _
  | some q =>
    obtain ⟨hinFlight, hmessages⟩ := hrecovered.pending hq
    rw [World.queueAt_of_some hq]
    rintro (hmem | hmem)
    · rw [hmessages, List.map_map] at hmem
      obtain ⟨msg, hstored, rfl⟩ := List.mem_map.mp hmem
      rw [Storage.mem_loadMessages_iff_find?] at hstored
      exact h.stored (Option.isSome_iff_exists.mpr ⟨msg, hstored⟩)
    · rw [hinFlight] at hmem
      cases hmem

/-- Once the manager has handled a reply, the message is gone exactly if it was not pending,
was not in flight unless it has a correlation id, and was not stored; and what is gone does
not reappear after a restart. -/
theorem handleReply_consumes_iff (manager : CallManager) (msg : Message)
    (hrouted : (w.queueAt manager.replyQ).Routed) (pass : Pass) :
    ((handleReply manager msg pass).Returns w fun _ w' => Consumed manager.replyQ msg.id w' ∧
        (w'.disk.Sound → ∀ memoryLimit order env, ∃ w'',
          (loadFromStorage order env).run (w'.restarted memoryLimit) = (.ok none, w'') ∧
            msg.id ∉ w''.liveIds manager.replyQ)) ↔
      Settleable manager.replyQ msg w := by
  have hgone (w' : World) : (Consumed manager.replyQ msg.id w' ∧ (w'.disk.Sound →
      ∀ memoryLimit order env, ∃ w'',
        (loadFromStorage order env).run (w'.restarted memoryLimit) = (.ok none, w'') ∧
          msg.id ∉ w''.liveIds manager.replyQ)) ↔ Consumed manager.replyQ msg.id w' :=
    and_iff_left_of_imp fun h hsound => h.restarted hsound
  simp only [hgone]
  by_cases hid : msg.correlationID = ""
  · rw [returns_iff, handleReply_ignored hid]
    constructor
    · rintro ⟨_, _, hrun, hlive, hstored⟩
      cases hrun
      have hnot := notMem_liveIds.mp hlive
      refine ⟨fun hpending => hnot (.inl hpending), fun _ => ?_, hstored⟩
      rw [← Option.not_isSome_iff_eq_none]
      exact fun hinFlight => hnot (.inr hinFlight)
    · rintro ⟨hpending, hinFlight, hstored⟩
      refine ⟨(), w, rfl, notMem_liveIds.mpr ?_, hstored⟩
      rintro (hmem | hmem)
      · exact hpending hmem
      · rw [hinFlight hid] at hmem
        cases hmem
  · have hacked := handleReply_acked hid hrouted pass
    constructor
    · intro h
      obtain ⟨_, w', hrun, hconsumed⟩ := returns_iff.mp h
      obtain ⟨_, _, hran, hids, hdisk⟩ := returns_iff.mp hacked
      cases hrun.symm.trans hran
      refine ⟨hids.mp (notMem_liveIds.mp hconsumed.live), fun hempty => absurd hempty hid, ?_⟩
      have hstored := hconsumed.stored
      rwa [World.HasRecord, hdisk] at hstored
    · rintro ⟨hpending, -, hstored⟩
      refine hacked.mono fun _ w' hleft => ⟨notMem_liveIds.mpr (hleft.1.mpr hpending), ?_⟩
      rwa [World.HasRecord, hleft.2]

def replyRequest (headers : StringMap) : PublishRequest := ⟨"_reply.c", [1], headers, "", "", ""⟩

def replyEnv : PublishEnv := ⟨0, 0, "r", 0, ⟨⟨0, []⟩, fun _ => ⟨0, []⟩⟩⟩

def awaitReply (headers : StringMap) : Prog CallManager := do
  let manager ← Server.newCallManager "c" ⟨0, []⟩
  let _ ← handlePublish (replyRequest headers) replyEnv
  receive manager.replyQ manager.consumer
  return manager

def replied (headers : StringMap) : Prog Unit := do
  let manager ← awaitReply headers
  handleReply manager (publishMessage (replyRequest headers) replyEnv) ⟨1, []⟩

def correlated : StringMap := KeyedMap.insert ∅ ("correlation_id", "a")

def withoutStore : World := ((awaitReply correlated).run ⟨Broker.new 0, ⟨false, Storage.empty, fun _ => none⟩⟩).2

theorem handleReply_consumes_iff_unstored :
    "r" ∈ withoutStore.liveIds "_reply.c" ∧
      (handleReply ⟨"_reply.c", 0⟩ (publishMessage (replyRequest correlated) replyEnv) ⟨1, []⟩).Returns
        withoutStore fun _ w' => Consumed "_reply.c" "r" w' := by
  have hrouted : (withoutStore.queueAt "_reply.c").Routed := nofun
  have hsettleable : Settleable "_reply.c" (publishMessage (replyRequest correlated) replyEnv) withoutStore :=
    ⟨by decide, fun hempty => absurd hempty (by decide), by decide⟩
  have hreturns := (handleReply_consumes_iff ⟨"_reply.c", 0⟩ _ hrouted ⟨1, []⟩).mpr hsettleable
  exact ⟨by decide, hreturns.mono fun _ _ h => h.1⟩

/-- A reply that has been handled is stored, and pending after a restart; one without a
correlation id is in flight as well. -/
theorem reply_reappears :
    ((replied correlated).run (World.fresh 0)).1 = .ok () ∧
      ((replied correlated).run (World.fresh 0)).2.HasRecord "_reply.c" "r" ∧
      "r" ∈ ((loadFromStorage [] fun _ => ⟨⟨0, []⟩, fun _ => ⟨0, []⟩⟩).run
        (((replied correlated).run (World.fresh 0)).2.restarted 0)).2.liveIds "_reply.c" ∧
      ((replied ∅).run (World.fresh 0)).1 = .ok () ∧
      "r" ∈ ((replied ∅).run (World.fresh 0)).2.liveIds "_reply.c" :=
  ⟨rfl, by decide, by decide, rfl, by decide⟩

end QwerQ
