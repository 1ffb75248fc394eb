import QwerQ.Ulid
import QwerQ.Broker.Restart
import QwerQ.Broker.Recovery
import QwerQ.Broker.Imprint
import QwerQ.Queue.Fifo

/-! The order of a queue across a restart. Pending messages stand in the order of their
publication; a new broker reads them in the order of their ids. -/
namespace QwerQ.Publishing
open List Process
variable {w w' : World} {name : String}

/-- A publish that drew a ULID: the message it made, and whether the queue took it. -/
structure Publication where
  ulid : Ulid
  msg : Message
  taken : Bool
  named : msg.id = ulid.text

def published (history : List Publication) : List Message :=
  (history.filter Publication.taken).map Publication.msg

/-- What storing each message, and deleting it again where the queue does not take it,
leaves under an id. -/
def recorded (history : List Publication) : String → Option Message :=
  history.foldl (fun table made =>
    Function.update table made.msg.id (if made.taken then some made.msg else none)) fun _ => none

/-- Each message that the queue takes has a larger ULID than those it took before, and no
other publish draws one of theirs again. -/
def InOrder (history : List Publication) : Prop :=
  history.Pairwise fun earlier later => earlier.taken = true →
    earlier.ulid ≠ later.ulid ∧ (later.taken = true → earlier.ulid < later.ulid)

variable {start : World × UlidGenerator} {before : List Message} {g g' : UlidGenerator}

section History
variable {history : List Publication} {made : Publication} {msg : Message} {id : String}

theorem published_snoc (history : List Publication) (made : Publication) :
    published (history ++ [made]) =
      published history ++ if made.taken then [made.msg] else [] := by
  rw [published, filter_append, map_append, published]
  cases htaken : made.taken <;> simp [htaken]

theorem recorded_snoc (history : List Publication) (made : Publication) :
    recorded (history ++ [made]) = Function.update (recorded history) made.msg.id
      (if made.taken then some made.msg else none) := by
  rw [recorded, foldl_append, recorded]
  rfl

theorem inOrder_snoc :
    InOrder (history ++ [made]) ↔ InOrder history ∧ ∀ earlier ∈ history, earlier.taken = true →
      earlier.ulid ≠ made.ulid ∧ (made.taken = true → earlier.ulid < made.ulid) := by
  rw [InOrder, pairwise_append, InOrder]
  simp

theorem mem_published : msg ∈ published history ↔
    ∃ made ∈ history, made.taken = true ∧ made.msg = msg := by
  simp [published, and_assoc]

theorem recorded_published (h : recorded history id = some msg) :
    msg ∈ published history ∧ msg.id = id := by
  induction history using List.reverseRecOn with
  | nil => cases h
  | append_singleton history made ih =>
    rw [recorded_snoc, Function.update_apply] at h
    rw [published_snoc]
    split at h
    · rename_i hid
      cases htaken : made.taken with
      | false =>
        rw [htaken] at h
        cases h
      | true =>
        rw [htaken] at h
        cases h
        exact ⟨mem_append_right _ mem_cons_self, hid.symm⟩
    · exact ⟨mem_append_left _ (ih h).1, (ih h).2⟩

theorem InOrder.recorded (horder : InOrder history) (hmsg : msg ∈ published history) :
    Publishing.recorded history msg.id = some msg := by
  induction history using List.reverseRecOn with
  | nil => cases hmsg
  | append_singleton history made ih =>
    have ⟨hbefore, hnew⟩ := inOrder_snoc.mp horder
    rw [recorded_snoc, Function.update_apply]
    rw [published_snoc, mem_append] at hmsg
    rcases hmsg with hold | hlast
    · have ⟨earlier, hmem, htaken, heq⟩ := mem_published.mp hold
      have hne : msg.id ≠ made.msg.id := by
        rw [← heq, earlier.named, made.named]
        exact fun hsame => (hnew earlier hmem htaken).1 (Ulid.text_inj hsame)
      rw [if_neg hne]
      exact ih hbefore hold
    · cases htaken : made.taken with
      | false => simp [htaken] at hlast
      | true =>
        simp only [htaken, if_true, mem_singleton] at hlast
        rw [hlast, if_pos rfl, if_pos rfl]

theorem InOrder.published_sorted (horder : InOrder history) :
    (published history).Pairwise fun left right => left.id < right.id := by
  rw [published, pairwise_map, pairwise_filter]
  refine List.Pairwise.imp ?_ horder
  intro earlier later hrelated htaken htaken'
  rw [earlier.named, later.named, Ulid.text_lt_iff]
  exact (hrelated htaken).2 htaken'

theorem inOrder_of_sorted (hsorted : ((published history).map Message.id).Pairwise (· < ·))
    (hkept : ∀ msg ∈ published history, Publishing.recorded history msg.id ≠ none) :
    InOrder history := by
  induction history using List.reverseRecOn with
  | nil => exact List.Pairwise.nil
  | append_singleton history made ih =>
    rw [published_snoc] at hsorted hkept
    rw [map_append, pairwise_append] at hsorted
    rw [recorded_snoc] at hkept
    have habove (earlier : Message) (hmem : earlier ∈ published history) :
        earlier.id ≠ made.msg.id ∧ (made.taken = true → earlier.id < made.msg.id) := by
      have hlt (htaken : made.taken = true) : earlier.id < made.msg.id :=
        hsorted.2.2 earlier.id (mem_map_of_mem hmem) made.msg.id (by simp [htaken])
      refine ⟨fun hsame => ?_, hlt⟩
      -- A publish that is not taken would have deleted the record.
      cases htaken : made.taken with
      | false =>
        refine hkept earlier (mem_append_left _ hmem) ?_
        rw [hsame, Function.update_self, htaken]
        rfl
      | true => exact absurd (hlt htaken) (hsame ▸ lt_irrefl _)
    refine inOrder_snoc.mpr ⟨ih hsorted.1 fun msg hmem => ?_, fun earlier hmem htaken => ?_⟩
    · have hrecord := hkept msg (mem_append_left _ hmem)
      rwa [Function.update_of_ne (habove msg hmem).1] at hrecord
    · have ⟨hne, hlt⟩ := habove earlier.msg (mem_published.mpr ⟨earlier, hmem, htaken, rfl⟩)
      rw [earlier.named, made.named] at hne hlt
      exact ⟨fun hsame => hne (congrArg Ulid.text hsame), fun htaken' =>
        Ulid.text_lt_iff.mp (hlt htaken')⟩

/-- A storage in which each publish has left its record is read in the order of
publication just where the ULIDs are in order. -/
theorem loadMessages_eq_published_iff {s : Storage}
    (hstored : ∀ id, s.messages.find? (name, id) = recorded history id) :
    (s.loadMessages name).map Message.body = (published history).map Message.body ↔
      InOrder history := by
  constructor
  · intro hsame
    have hids : (s.loadMessages name).map Message.id = (published history).map Message.id := by
      have hbodies := congrArg (List.map Body.id) hsame
      rwa [map_map, map_map] at hbodies
    refine inOrder_of_sorted ?_ fun msg hmsg => ?_
    · rw [← hids, pairwise_map]
      exact s.loadMessages_increasing name
    · have hloaded : msg.id ∈ (s.loadMessages name).map Message.id :=
        hids ▸ mem_map_of_mem hmsg
      have ⟨record, hrecord, hid⟩ := mem_map.mp hloaded
      rw [← hstored, ← hid, Storage.mem_loadMessages_iff_find?.mp hrecord]
      exact Option.some_ne_none record
  · intro horder
    have : Std.Irrefl fun left right : Message => left.id < right.id := ⟨fun _ => lt_irrefl _⟩
    have : Std.Antisymm fun left right : Message => left.id < right.id :=
      ⟨fun _ _ hlt hgt => absurd hgt (lt_asymm hlt)⟩
    refine congrArg (List.map Message.body)
      ((s.loadMessages_increasing name).eq_of_mem_iff horder.published_sorted fun msg => ?_)
    rw [Storage.mem_loadMessages_iff_find?, hstored]
    exact ⟨fun hrecord => (recorded_published hrecord).1, horder.recorded⟩

end History

/-- A publish to the queue that leaves the id to the broker. Refused by the memory limit or
by its idempotency key it draws no ULID; else it draws one before anything is stored. -/
inductive Step (name : String) :
    List Publication → World × UlidGenerator → List Publication → World × UlidGenerator → Prop where
  | refused {history : List Publication} {w w' : World} {g : UlidGenerator} {req : PublishRequest}
      {env : PublishEnv} {result : Except Err String} :
      req.queue = name → req.messageId = "" → Refused req env w →
      (handlePublish req env).run w = (.ok result, w') → Step name history (w, g) [] (w', g)
  | drawn {history : List Publication} {w w' : World} {g g' : UlidGenerator} {req : PublishRequest}
      {env : PublishEnv} {result : Except Err String} {reading : UlidReading} {ulid : Ulid}
      (hid : publishId req env = ulid.text) :
      req.queue = name → req.messageId = "" → ¬ Refused req env w →
      newULID reading g = some (ulid, g') → (handlePublish req env).run w = (.ok result, w') →
      Step name history (w, g)
        [⟨ulid, publishMessage req env, result.toOption.isSome, hid⟩] (w', g')

abbrev Runs (name : String) := Run (Step name)

/-- What the queue has sent and holds, and what is stored for it, after the publishes. -/
structure Logs (name : String) (before : List Message) (history : List Publication) (w : World) :
    Prop where
  sound : w.disk.Sound
  config : (w.queue? name).isSome → ∃ config,
    w.disk.storage.queues.find? name = some (name, config) ∧ config.mode ≠ .stream
  passage : (w.queueAt name).passage = before ++ (published history).map Queue.cloneMessage
  stored : ∀ id, w.disk.storage.messages.find? (name, id) = recorded history id

namespace Logs
variable {history : List Publication}

theorem of_broker (h : Logs name before history w) (hqueue : w'.queue? name = w.queue? name)
    (hdisk : w'.disk = w.disk) : Logs name before history w' := by
  have hat : w'.queueAt name = w.queueAt name := by
    rw [World.queueAt, hqueue, World.queueAt]
  exact ⟨hdisk ▸ h.sound, hqueue ▸ hdisk ▸ h.config, hat ▸ h.passage, hdisk ▸ h.stored⟩

theorem createQueue (h : Logs name before history w) :
    (QwerQ.createQueue name w).1 = none ∧
      Logs name before history (QwerQ.createQueue name w).2 := by
  cases hq : w.queue? name with
  | some q =>
    simp only [QwerQ.createQueue, hq]
    exact ⟨trivial, h⟩
  | none =>
    have hcreated := (createQueue_of_sound name h.sound).2
    have hat := hcreated.queueAt name
    rw [createQueue_sound h.sound hq] at hcreated hat ⊢
    refine ⟨rfl, hcreated.sound h.sound, fun _ => ⟨newConfig (Queue.new name), ?_, fun h => by cases h⟩,
      hat ▸ h.passage, h.stored⟩
    exact KeyedMap.find?_insert_self _ (name, newConfig (Queue.new name))

theorem snoc (made : Publication) (h : Logs name before history w) (hsound : w'.disk.Sound)
    (hconfig : w'.disk.storage.queues = w.disk.storage.queues) (hfound : (w.queue? name).isSome)
    (hpassage : (w'.queueAt name).passage =
      (w.queueAt name).passage ++ if made.taken then [Queue.cloneMessage made.msg] else [])
    (hstored : ∀ id, w'.disk.storage.messages.find? (name, id) =
      if id = made.msg.id then (if made.taken then some made.msg else none)
      else w.disk.storage.messages.find? (name, id)) :
    Logs name before (history ++ [made]) w' := by
  refine ⟨hsound, fun _ => hconfig ▸ h.config hfound, ?_, fun id => ?_⟩
  · rw [hpassage, h.passage, published_snoc, map_append, append_assoc]
    split <;> rfl
  · rw [hstored, h.stored, recorded_snoc, Function.update_apply]

end Logs

theorem saveAndEnqueue_logs {history : List Publication} {msg : Message}
    {passes : Env} {ulid : Ulid} (h : Logs msg.queue before history w) (hid : msg.id = ulid.text) :
    (saveAndEnqueue (some msg.queue) msg passes).Ensures w fun err w' =>
      Logs msg.queue before (history ++ [⟨ulid, msg, err.isNone, hid⟩]) w' := by
  simp only [saveAndEnqueue, saveMessage, deleteMessage, enqueue, ensures_bind,
    ensures_write_sound h.sound]
  rw [ensures_lockedPure]
  intro queue q q' err hptr hq hok
  cases hptr
  have hfound : (w.queue? msg.queue).isSome := Option.isSome_of_eq_some hq
  have hold : w.queueAt msg.queue = q := World.queueAt_of_some hq
  have hsound : ((w.store (Storage.saveMessage msg)).setQueue q').disk.Sound :=
    ⟨h.sound.present, h.sound.faults⟩
  have hnew : ((w.store (Storage.saveMessage msg)).setQueue q').queueAt msg.queue = q' := by
    rw [World.queueAt_setQueue hq (Queue.enqueue_name hok), if_pos rfl]
  rcases Queue.enqueue_cases hok with ⟨_, hsame, rfl⟩ | ⟨_, rfl, hdirect⟩
  · simp only [ensures_bind, ensures_write_sound hsound]
    refine h.snoc _ ⟨hsound.present, hsound.faults⟩ rfl hfound ?_ fun id => ?_
    · change (((w.store (Storage.saveMessage msg)).setQueue q').queueAt msg.queue).passage = _
      rw [hnew, hold, hsame]
      exact (append_nil _).symm
    · change ((w.disk.storage.messages.insert msg).erase (msg.queue, msg.id)).find? _ = _
      rw [KeyedMap.find?_erase, KeyedMap.find?_insert]
      simp only [Prod.mk.injEq, true_and]
      split <;> rfl
  · refine h.snoc _ hsound rfl hfound ?_ fun id => ?_
    · rw [hnew, hold]
      exact Queue.enqueueDirect_passage hdirect
    · change (w.disk.storage.messages.insert msg).find? _ = _
      rw [KeyedMap.find?_insert]
      simp only [Prod.mk.injEq, true_and]
      rfl

theorem handlePublish_logs {history : List Publication}
    {req : PublishRequest} {env : PublishEnv} {ulid : Ulid} (h : Logs req.queue before history w)
    (hid : publishId req env = ulid.text) (hchecked : ¬ Refused req env w) :
    (handlePublish req env).Ensures w fun result w' => Logs req.queue before
      (history ++ [⟨ulid, publishMessage req env, result.toOption.isSome, hid⟩]) w' := by
  have hkeyed : Logs req.queue before history (w.keyed req env) :=
    h.of_broker (World.queue?_keyed w req.queue) rfl
  have ⟨hnone, hcreated⟩ := hkeyed.createQueue
  refine ensures_handlePublish env (fun hrefused => absurd hrefused hchecked) (fun err herr => ?_)
    fun _ _ => ?_
  · rw [hnone] at herr
    cases herr
  · refine (@saveAndEnqueue_logs _ before history (publishMessage req env) env.enqueue ulid hcreated
      hid).mono fun err w' h' => ?_
    cases err <;> exact h'

/-- A queue that holds nothing and has nothing stored, in a broker over a storage that does
not fail. It may have consumers and groups, or not be there yet. -/
structure Idle (name : String) (w : World) : Prop where
  sound : w.disk.Sound
  config : (w.queue? name).isSome → ∃ config,
    w.disk.storage.queues.find? name = some (name, config) ∧ config.mode ≠ .stream
  pending : (w.queueAt name).messages = []
  unstored : ∀ id, w.disk.storage.messages.find? (name, id) = none

theorem Step.logs {history events : List Publication}
    (step : Step name history (w, g) events (w', g'))
    (h : Logs name before history w) : Logs name before (history ++ events) w' := by
  cases step with
  | refused _ _ hrefused hrun =>
    have ⟨_, _, hran, _, hsame⟩ := returns_iff.mp (handlePublish_refused _ hrefused)
    cases hrun.symm.trans hran
    rw [hsame, append_nil]
    exact h
  | drawn hid hname _ hchecked _ hrun =>
    subst hname
    exact ensures_iff.mp (handlePublish_logs h hid hchecked) _ _ hrun

theorem Runs.logs {history : List Publication} {after : World × UlidGenerator}
    (run : Runs name start history after) (h : Idle name start.1) :
    Logs name ((start.1.queueAt name).sent.map Delivery.msg) history after.1 := by
  refine run.invariant (fun history after =>
    Logs name ((start.1.queueAt name).sent.map Delivery.msg) history after.1) ?_
    fun hlogs step => step.logs hlogs
  refine ⟨h.sound, h.config, ?_, h.unstored⟩
  rw [Queue.passage, h.pending]
  rfl

/-- A new broker over the storage reads it and has the pending messages in the order they
had, whatever the order of the queues and whoever receives meanwhile. -/
def Restores (name : String) (w : World) : Prop :=
  ∀ restart : Restart, ∃ w',
    (loadFromStorage restart.order restart.env).run (w.restarted restart.memoryLimit) =
      (.ok none, w') ∧
    (w'.queueAt name).messages.map Message.body = (w.queueAt name).messages.map Message.body

namespace Logs
variable {history : List Publication}

theorem pending (h : Logs name before history w)
    (hsent : (w.queueAt name).sent.map Delivery.msg = before) :
    (w.queueAt name).messages.map Message.body = (published history).map Message.body := by
  have hpassage := h.passage
  rw [Queue.passage, hsent] at hpassage
  have hbodies := congrArg (List.map Message.body) (append_cancel_left hpassage)
  rwa [map_map, map_map] at hbodies

theorem published_nil (h : Logs name before history w) (hq : w.queue? name = none) :
    published history = [] := by
  have hpassage := h.passage
  rw [World.queueAt, hq] at hpassage
  exact map_eq_nil_iff.mp (append_eq_nil_iff.mp hpassage.symm).2

theorem reloaded (h : Logs name before history w) (hrecovered : Recovered w.disk.storage w') :
    (w'.queueAt name).messages.map Message.body =
      (w.disk.storage.loadMessages name).map Message.body := by
  cases hloaded : w'.queue? name with
  | some q' =>
    rw [World.queueAt_of_some hloaded, (hrecovered.pending hloaded).2, map_map]
    rfl
  | none =>
    have hnone : w.queue? name = none := by
      by_contra hfound
      have ⟨_, hentry, hmode⟩ := h.config (Option.isSome_iff_ne_none.mpr hfound)
      rw [hrecovered.queue_eq hentry hmode] at hloaded
      cases hloaded
    have hempty : w.disk.storage.loadMessages name = [] := by
      refine eq_nil_iff_forall_not_mem.mpr fun msg hmsg => ?_
      rw [Storage.mem_loadMessages_iff_find?, h.stored] at hmsg
      have hmem := (recorded_published hmsg).1
      rw [h.published_nil hnone] at hmem
      cases hmem
    rw [World.queueAt, hloaded, hempty]
    rfl

theorem restores_iff (h : Logs name before history w)
    (hsent : (w.queueAt name).sent.map Delivery.msg = before) :
    Restores name w ↔ InOrder history := by
  rw [← loadMessages_eq_published_iff h.stored]
  constructor
  · intro hrestores
    have ⟨w', hrun, hsame⟩ := hrestores ⟨0, [], fun _ => Queue.quiet⟩
    have ⟨_, hran, hrecovered⟩ := restarted_recovers 0 [] (fun _ => Queue.quiet) h.sound
    cases hrun.symm.trans hran
    rw [← h.reloaded hrecovered, hsame, h.pending hsent]
  · intro hsame restart
    have ⟨w', hrun, hrecovered⟩ :=
      restarted_recovers restart.memoryLimit restart.order restart.env h.sound
    exact ⟨w', hrun, by rw [h.reloaded hrecovered, hsame, h.pending hsent]⟩

end Logs

/-- After publishes to an idle queue of which nothing has been delivered, the pending
messages stand in the order of publication; a new broker recovers them in that order just
where each of them drew a larger ULID than those before, and no publish that was turned
away drew one of theirs. -/
theorem restart_keeps_order_iff {start after : World × UlidGenerator} {history : List Publication}
    (hidle : Idle name start.1) (run : Runs name start history after)
    (hundelivered : (after.1.queueAt name).sent = (start.1.queueAt name).sent) :
    (after.1.queueAt name).messages.map Message.body = (published history).map Message.body ∧
      (Restores name after.1 ↔ InOrder history) := by
  have hlogs := run.logs hidle
  have hsent := congrArg (List.map Delivery.msg) hundelivered
  exact ⟨hlogs.pending hsent, hlogs.restores_iff hsent⟩

theorem idle_fresh (name : String) (memoryLimit : UInt64) : Idle name (World.fresh memoryLimit) :=
  ⟨⟨rfl, rfl⟩, nofun, rfl, fun _ => rfl⟩

def orderOf (byte : UInt8) : PublishRequest := ⟨"orders", [byte], ∅, "", "", ""⟩

def publishing (ulid : Ulid) : PublishEnv := ⟨0, 0, ulid.text, 0, Queue.quiet⟩

def placed (byte : UInt8) (ulid : Ulid) : Publication :=
  ⟨ulid, publishMessage (orderOf byte) (publishing ulid), true, rfl⟩

theorem orderOf_unrefused (byte : UInt8) (ulid : Ulid) (hlimit : w.broker.memoryLimit = 0) :
    ¬ Refused (orderOf byte) (publishing ulid) w := by
  have hmemory : w.broker.checkMemory (orderOf byte) 0 = none := by
    rw [Broker.checkMemory, Broker.checkMemoryPressureEager, Broker.checkMemoryPressure,
      if_pos hlimit, ite_self]
  have hkey : w.broker.checkKey "" 0 = (none, w.broker) := Broker.checkKey_unkeyed (.inl rfl)
  exact not_or.mpr ⟨not_not.mpr hmemory, not_not.mpr (congrArg Prod.fst hkey)⟩

theorem Runs.place {history : List Publication}
    {reading : UlidReading} {ulid : Ulid} (byte : UInt8)
    (run : Runs "orders" start history (w, g))
    (hchecked : ¬ Refused (orderOf byte) (publishing ulid) w)
    (hdraws : newULID reading g = some (ulid, g'))
    (hok : ((handlePublish (orderOf byte) (publishing ulid)).run w).1 = .ok (.ok ulid.text)) :
    Runs "orders" start (history ++ [placed byte ulid])
      (((handlePublish (orderOf byte) (publishing ulid)).run w).2, g') :=
  run.next (.drawn (show publishId (orderOf byte) (publishing ulid) = ulid.text from rfl) rfl rfl
    hchecked hdraws (Prod.ext hok rfl))

def twoPlaced (first second : Ulid) : World :=
  ((handlePublish (orderOf 2) (publishing second)).run
    ((handlePublish (orderOf 1) (publishing first)).run (World.fresh 0)).2).2

/-- The first two publishes of a process draw from sources of their own, so that any two
ULIDs may follow each other. -/
theorem twoPlaced_runs (first second : Ulid) : ∃ g, Runs "orders" (World.fresh 0, .init)
    [placed 1 first, placed 2 second] (twoPlaced first second, g) := by
  have hdraws : newULID ⟨first.ms, first.entropy, 0⟩ .init = some (first, _) := rfl
  have hfirst := Runs.place 1 .start (orderOf_unrefused (w := World.fresh 0) 1 first rfl) hdraws rfl
  exact ⟨_, hfirst.place 2 (orderOf_unrefused 2 second rfl)
    (show newULID ⟨second.ms, second.entropy, 0⟩ _ = some (second, _) from rfl) rfl⟩

/-- Two messages are published in one millisecond, the second with less entropy. They are
pending in the order of publication, and after a restart the other way round. -/
theorem same_millisecond_reversed :
    (∃ history g, Runs "orders" (World.fresh 0, .init) history (twoPlaced ⟨7, 2⟩ ⟨7, 1⟩, g)) ∧
      ((twoPlaced ⟨7, 2⟩ ⟨7, 1⟩).queueAt "orders").sent = [] ∧
      ((twoPlaced ⟨7, 2⟩ ⟨7, 1⟩).queueAt "orders").messages.map Message.payload = [[1], [2]] ∧
      ((loadFromStorage [] fun _ => Queue.quiet).run ((twoPlaced ⟨7, 2⟩ ⟨7, 1⟩).restarted 0)).1 =
        .ok none ∧
      (((loadFromStorage [] fun _ => Queue.quiet).run
        ((twoPlaced ⟨7, 2⟩ ⟨7, 1⟩).restarted 0)).2.queueAt "orders").messages.map Message.payload =
          [[2], [1]] := by
  have ⟨g, run⟩ := twoPlaced_runs ⟨7, 2⟩ ⟨7, 1⟩
  exact ⟨⟨_, g, run⟩, rfl, by decide, by decide, by decide⟩

/-- With more entropy in the second the restart keeps the order. -/
theorem restart_keeps_order_increasing : Restores "orders" (twoPlaced ⟨7, 1⟩ ⟨7, 2⟩) := by
  have ⟨g, run⟩ := twoPlaced_runs ⟨7, 1⟩ ⟨7, 2⟩
  refine (restart_keeps_order_iff (idle_fresh "orders" 0) run rfl).2.mpr ?_
  unfold InOrder
  decide

end QwerQ.Publishing
