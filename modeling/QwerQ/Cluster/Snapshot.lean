import QwerQ.Cluster.Node
import QwerQ.Broker.Load

/-! A snapshot taken on one node and restored on a new one. The snapshot has the
records of the storage, if there is one, and the names of the queues and streams;
the new node has these messages pending, and every stream begins again. -/
namespace QwerQ
open List Process KeyedMap Option
variable {w w' : World} {name : String}

def World.snapshotted (name : String) (w : World) : List SnapshotMessage :=
  if w.disk.present then (w.disk.storage.loadMessages name).map .of else []

/-- The queues that are not streams too, with their records, and the streams by name. -/
structure Snapshots (w : World) (snapshot : FSMSnapshot) : Prop where
  queues : ∀ name, snapshot.queues.find? name =
    if (w.queue? name).isSome ∧ w.stream? name = none then some (name, w.snapshotted name) else none
  streams : ∀ name, name ∈ snapshot.streamQueues ↔ (w.stream? name).isSome

theorem Broker.mem_listQueues : name ∈ w.broker.listQueues ↔
    (w.queue? name).isSome ∨ (w.stream? name).isSome := by
  rw [listQueues, (perm_insertionSort _ _).mem_iff, mem_append, World.queue?, World.stream?,
    isSome_find?_iff, isSome_find?_iff]

theorem Broker.listed_queue : name ∈ w.broker.listQueues ∧ w.stream? name = none ↔
    (w.queue? name).isSome ∧ w.stream? name = none := by
  rw [mem_listQueues]
  constructor
  · rintro ⟨hqueue | hstream, hnone⟩
    · exact ⟨hqueue, hnone⟩
    · simp [hnone] at hstream
  · exact fun h => ⟨.inl h.1, h.2⟩

theorem Broker.listQueues_nodup (w : World) :
    (w.broker.listQueues.filter fun name => (w.stream? name).isNone).Nodup := by
  have hstreams : (w.broker.streamQueues.entries.map StreamQueue.name).filter
      (fun name => (w.stream? name).isNone) = [] := by
    refine filter_eq_nil_iff.mpr fun name hname => ?_
    have hsome : (w.stream? name).isSome := isSome_find?_iff.mpr hname
    simp [isNone_eq_false_iff.mpr hsome]
  refine ((perm_insertionSort _ _).filter _).nodup_iff.mpr ?_
  rw [filter_append, hstreams, append_nil]
  exact w.broker.queues.nodup.filter _

theorem find?_foldl_names {taken : String → Prop} [DecidablePred taken] (names : List String)
    (queues : KeyedMap (Prod.fst : String × List SnapshotMessage → String)) (name : String) :
    (names.foldl (fun queues name => if taken name then queues.insert (name, []) else queues)
        queues).find? name =
      if name ∈ names ∧ taken name then some (name, []) else queues.find? name := by
  induction names generalizing queues with
  | nil => simp
  | cons first rest ih =>
    rw [foldl_cons, ih]
    by_cases hfirst : name = first
    · by_cases htaken : taken first
      · simp [hfirst, htaken]
      · simp [hfirst, htaken]
    · by_cases htaken : taken first
      · simp [hfirst, htaken, find?_insert_of_ne]
      · simp [hfirst, htaken]

theorem snapshotNames_find (name : String) (w : World) :
    (FSM.snapshotNames w.broker.listQueues w).queues.find? name =
      if (w.queue? name).isSome ∧ w.stream? name = none then some (name, []) else none := by
  rw [FSM.snapshotNames, find?_foldl_names, find?_empty]
  refine if_congr ?_ rfl rfl
  rw [Broker.mem_listQueues, isNone_iff_eq_none]
  exact ⟨fun h => ⟨h.2.2, h.2.1⟩, fun h => ⟨.inl h.1, h.2, h.1⟩⟩

theorem snapshotMessages_returns (hquiet : w.disk.Quiet) {names : List String}
    (hnodup : (names.filter fun name => (w.stream? name).isNone).Nodup) (snapshot : FSMSnapshot) :
    (FSM.snapshotMessages names snapshot).Returns w fun result w' => w' = w ∧
      result.streamQueues = snapshot.streamQueues ∧
      ∀ name, result.queues.find? name =
        if name ∈ names ∧ w.stream? name = none then
          some (name, ((snapshot.queues.find? name).map Prod.snd).getD [] ++
            (w.disk.storage.loadMessages name).map .of)
        else snapshot.queues.find? name := by
  induction names generalizing snapshot with
  | nil => exact ⟨rfl, rfl, fun _ => by simp⟩
  | cons first rest ih =>
    simp only [FSM.snapshotMessages, isStreamQueue, readDisk, returns_bind, returns_look]
    cases hstream : w.stream? first with
    | some sq =>
      rw [filter_cons_of_neg (by simp [hstream])] at hnodup
      refine (ih hnodup snapshot).mono ?_
      rintro result _ ⟨rfl, hstreams, hqueues⟩
      refine ⟨rfl, hstreams, fun name => (hqueues name).trans (if_congr ?_ rfl rfl)⟩
      rw [mem_cons]
      constructor
      · exact fun h => ⟨.inr h.1, h.2⟩
      · rintro ⟨rfl | hrest, hnone⟩
        · cases hstream.symm.trans hnone
        · exact ⟨hrest, hnone⟩
    | none =>
      rw [filter_cons_of_pos (by simp [hstream]), nodup_cons] at hnodup
      simp only [isSome_none, Bool.false_eq_true, if_false, returns_bind, returns_step,
        returns_done, hquiet.read_eq]
      refine (ih hnodup.2 _).mono ?_
      rintro result _ ⟨rfl, hstreams, hqueues⟩
      refine ⟨rfl, hstreams, fun name => (hqueues name).trans ?_⟩
      by_cases hname : name = first
      · have hrest : first ∉ rest := fun hmem =>
          hnodup.1 (mem_filter.mpr ⟨hmem, by simp [hstream]⟩)
        simp [hname, hrest, hstream]
      · simp [hname, find?_insert_of_ne]

theorem snapshot_returns (hquiet : w.disk.Quiet) :
    FSM.snapshot.Returns w fun snapshot w' => w' = w ∧ Snapshots w snapshot := by
  have hstreams (name : String) : name ∈ (FSM.snapshotNames w.broker.listQueues w).streamQueues ↔
      (w.stream? name).isSome := by
    rw [FSM.snapshotNames, mem_filter, Broker.mem_listQueues]
    exact ⟨fun h => h.2, fun h => ⟨.inr h, h⟩⟩
  simp only [FSM.snapshot, returns_bind, returns_look]
  split
  · rename_i hpresent
    refine (snapshotMessages_returns hquiet (Broker.listQueues_nodup w) _).mono ?_
    rintro result _ ⟨rfl, hsame, hqueues⟩
    refine ⟨rfl, fun name => (hqueues name).trans ?_, fun name => hsame ▸ hstreams name⟩
    rw [snapshotNames_find, World.snapshotted, if_pos hpresent]
    refine (if_congr Broker.listed_queue rfl rfl).trans ?_
    split <;> rfl
  · rename_i hpresent
    refine ⟨rfl, fun name => ?_, hstreams⟩
    rw [snapshotNames_find, World.snapshotted, if_neg hpresent]

/-- Messages have been put last into a queue, and nothing else has changed. -/
structure Restores (name : String) (messages : List SnapshotMessage) (w w' : World) : Prop where
  idle : w'.Idle
  streams : w'.broker.streamQueues = w.broker.streamQueues
  queues : ∀ other, w'.queueAt other = if other = name then
    { w.queueAt name with
      messages := (w.queueAt name).messages ++ messages.map SnapshotMessage.message }
    else w.queueAt other

theorem Restores.nil (h : w.Idle) (name : String) : Restores name [] w w := by
  refine ⟨h, rfl, fun other => ?_⟩
  split
  · rename_i hother
    rw [hother, map_nil, append_nil]
  · rfl

theorem Restores.cons {next : World} {sm : SnapshotMessage} {rest : List SnapshotMessage}
    (hfirst : Restores name [sm] w next) (hrest : Restores name rest next w') :
    Restores name (sm :: rest) w w' := by
  refine ⟨hrest.idle, hrest.streams.trans hfirst.streams, fun other => ?_⟩
  rw [hrest.queues]
  split
  · rw [hfirst.queues, if_pos rfl]
    simp
  · rename_i hother
    rw [hfirst.queues, if_neg hother]

theorem restoreMessage_restores {q : Queue} {disk : Disk} (sm : SnapshotMessage) (h : w.Idle)
    (hq : w.queue? name = some q) (hquiet : disk.Quiet) :
    Restores name [sm] w
      { w.setQueue { q with messages := q.messages ++ [sm.message] } with disk := disk } := by
  have hqueues (other : String) :
      (w.setQueue { q with messages := q.messages ++ [sm.message] }).queueAt other =
        if other = name then { q with messages := q.messages ++ [sm.message] }
        else w.queueAt other := World.queueAt_setQueue hq (by rfl) other
  have hidle := h.queue hq
  refine ⟨⟨fun other => ?_, hquiet⟩, rfl, fun other => ?_⟩
  · refine (hqueues other).symm ▸ ?_
    split
    · exact ⟨⟨hidle.routed, hidle.ungrouped⟩, hidle.consumers, hidle.inFlight⟩
    · exact h.queues other
  · refine (hqueues other).trans ?_
    rw [World.queueAt_of_some hq]
    rfl

theorem restoreMessages_restores (env : Message → Env) (messages : List SnapshotMessage)
    (h : w.Idle) (hq : (w.queue? name).isSome) :
    (FSM.restoreMessages (some name) env messages).Returns w fun err w' =>
      err = none ∧ Restores name messages w w' := by
  induction messages generalizing w with
  | nil => exact ⟨rfl, .nil h name⟩
  | cons sm rest ih =>
    have ⟨q, hq⟩ := isSome_iff_exists.mp hq
    have hidle := h.queue hq
    simp only [FSM.restoreMessages, returns_bind]
    refine (returns_lockedPure hq).mpr ⟨{ q with messages := q.messages ++ [sm.message] }, _, by
      rw [Queue.enqueueDirect_unconsumed _ _ hidle.consumers hidle.ungrouped]; rfl, ?_⟩
    simp only [saveMessage, returns_write, World.setQueue_disk, h.quiet.write_eq]
    have hfirst {disk : Disk} (hquiet : disk.Quiet) := restoreMessage_restores sm h hq hquiet
    refine (ih (hfirst (h.quiet.stores _)).idle ?_).mono fun err w' ⟨hnone, hrest⟩ =>
      ⟨hnone, (hfirst (h.quiet.stores _)).cons hrest⟩
    exact isSome_iff_exists.mpr ⟨_, World.queue?_put _ hq rfl⟩

def restoredTo (name : String) (entries : List (String × List SnapshotMessage)) :
    List SnapshotMessage :=
  ((entries.find? fun entry => entry.1 = name).map Prod.snd).getD []

theorem restoreQueues_returns (env : Message → Env) {entries : List (String × List SnapshotMessage)}
    (h : w.Idle) (hnodup : (entries.map Prod.fst).Nodup) :
    (FSM.restoreQueues env entries).Returns w fun err w' => err = none ∧ w'.Idle ∧
      w'.broker.streamQueues = w.broker.streamQueues ∧
      ∀ name, (w'.queueAt name).messages =
        (w.queueAt name).messages ++ (restoredTo name entries).map SnapshotMessage.message := by
  induction entries generalizing w with
  | nil => exact ⟨rfl, h, rfl, fun _ => (append_nil _).symm⟩
  | cons entry rest ih =>
    have ⟨first, messages⟩ := entry
    rw [map_cons, nodup_cons] at hnodup
    simp only [FSM.restoreQueues, returns_bind]
    refine getOrCreateQueue_founds h.steady fun next hfounded => ?_
    refine (restoreMessages_restores env messages (hfounded.idle h)
      (isSome_iff_exists.mpr ⟨_, hfounded.queue⟩)).mono ?_
    rintro _ middle ⟨rfl, hrestores⟩
    refine (ih hrestores.idle hnodup.2).mono ?_
    rintro err w' ⟨hnone, hidle, hstreams, hqueues⟩
    refine ⟨hnone, hidle, (hstreams.trans hrestores.streams).trans hfounded.streams, fun name => ?_⟩
    rw [hqueues, hrestores.queues, hfounded.same, hfounded.same, restoredTo, restoredTo,
      find?_cons]
    by_cases hname : name = first
    · have hrest : rest.find? (fun entry => entry.1 = name) = none := by
        refine find?_eq_none.mpr fun entry hentry hkey => hnodup.1 ?_
        exact mem_map.mpr ⟨entry, hentry, by simpa [hname] using hkey⟩
      simp [hname, hname ▸ hrest]
    · simp [hname, Ne.symm hname]

structure Opening (w : World) : Prop where
  quiet : w.disk.Quiet
  unstored : w.disk.storage.streams = ∅
  first : ∀ name sq, w.stream? name = some sq → sq.nextSeq = 1

theorem Opening.create (h : Opening w) (hnew : w.stream? name = none) :
    Opening (createStreamQueue name w).2 := by
  have hseq : (if w.disk.present then w.disk.storage.getStreamSequence name else 0) = 0 := by
    rw [Storage.getStreamSequence, h.unstored]
    exact ite_self _
  rw [createStreamQueue_quiet h.quiet hnew, hseq]
  refine ⟨h.quiet.stores _, ?_, fun other sq hsq => ?_⟩
  · unfold Disk.stores
    split <;> exact h.unstored
  · have hfound : (w.broker.streamQueues.insert (StreamQueue.new name (.ok 0))).find? other =
        some sq := hsq
    rw [find?_insert] at hfound
    split at hfound
    · cases hfound
      rfl
    · exact h.first other sq hfound

theorem getOrCreateStreamQueue_opens {post : Option String → World → Prop} (h : Opening w)
    (hpost : ∀ w', Opening w' → w'.broker.queues = w.broker.queues →
      (∀ other, other = name ∨ (w.stream? other).isSome → (w'.stream? other).isSome) →
      post (some name) w') :
    (getOrCreateStreamQueue name).Returns w post := by
  rw [returns_getOrCreateStreamQueue]
  cases hsq : w.stream? name with
  | some sq =>
    simp only [createStreamQueue, hsq]
    refine hpost w h rfl ?_
    rintro other (rfl | hsome)
    · simp [hsq]
    · exact hsome
  | none =>
    have hopening := h.create hsq
    rw [createStreamQueue_quiet h.quiet hsq] at hopening ⊢
    exact hpost _ hopening rfl fun _ hother => World.isSome_stream?_setStream hother

theorem restoreStreams_opens (names : List String) (h : Opening w) :
    (FSM.restoreStreams names).Returns w fun _ w' => Opening w' ∧
      w'.broker.queues = w.broker.queues ∧
      ∀ name, name ∈ names ∨ (w.stream? name).isSome → (w'.stream? name).isSome := by
  induction names generalizing w with
  | nil => exact ⟨h, rfl, fun _ hname => hname.resolve_left not_mem_nil⟩
  | cons first rest ih =>
    simp only [FSM.restoreStreams, returns_bind]
    refine getOrCreateStreamQueue_opens h fun next hopening hqueues hstreams => ?_
    refine (ih hopening).mono fun _ w' hrest => ?_
    obtain ⟨hopening', hqueues', hstreams'⟩ := hrest
    refine ⟨hopening', hqueues'.trans hqueues, fun name hname => hstreams' name ?_⟩
    rcases hname with hname | hsome
    · rcases mem_cons.mp hname with hfirst | hrest
      · exact .inr (hstreams name (.inl hfirst))
      · exact .inl hrest
    · exact .inr (hstreams name (.inr hsome))

/-- The snapshot's messages are pending, and its streams are new. -/
structure Restored (snapshot : FSMSnapshot) (w : World) : Prop where
  idle : w.Idle
  queues : ∀ name, (w.queueAt name).messages =
    (((snapshot.queues.find? name).map Prod.snd).getD []).map SnapshotMessage.message
  streams : ∀ name ∈ snapshot.streamQueues, ∃ sq, w.stream? name = some sq ∧ sq.nextSeq = 1

theorem restore_returns (present : Bool) (memoryLimit : UInt64) (snapshot : FSMSnapshot)
    (order : List String) (env : Message → Env) :
    (FSM.restore snapshot order env).Returns (.node present memoryLimit) fun err w =>
      err = none ∧ Restored snapshot w := by
  have hopening : Opening (.node present memoryLimit) := ⟨rfl, rfl, fun _ _ hsq => by cases hsq⟩
  have hnodup := snapshot.queues.inOrder_nodup order
  simp only [FSM.restore, FSM.resetForRestore, returns_bind, returns_step, returns_done]
  refine (restoreStreams_opens snapshot.streamQueues hopening).mono ?_
  rintro _ opened ⟨hopened, hqueues, hstreams⟩
  have hnew (name : String) : opened.queueAt name = Queue.new name := by
    rw [World.queueAt, World.queue?, hqueues]
    rfl
  have hidle : opened.Idle := ⟨fun name => hnew name ▸ Queue.idle_new name, hopened.quiet⟩
  refine (restoreQueues_returns env hidle hnodup).mono ?_
  rintro err w ⟨hnone, hidle', hsame, hmessages⟩
  refine ⟨hnone, hidle', fun name => ?_, fun name hname => ?_⟩
  · rw [hmessages, hnew, restoredTo, find?_inOrder]
    rfl
  · have ⟨sq, hsq⟩ := isSome_iff_exists.mp (hstreams name (.inl hname))
    refine ⟨sq, ?_, hopened.first name sq hsq⟩
    rw [World.stream?, hsame]
    exact hsq

theorem SnapshotMessage.contents_message (sm : SnapshotMessage) : sm.message.contents = (sm, "") := by
  simp [Message.contents, SnapshotMessage.of, SnapshotMessage.message]

/-- Every queue has the same messages, and every stream the same next sequence number. -/
structure Preserved (w w' : World) : Prop where
  queues : ∀ name q, w.queue? name = some q →
    ((w'.queueAt name).live.map Message.contents).Perm (q.live.map Message.contents)
  streams : ∀ name sq, w.stream? name = some sq →
    ∃ sq', w'.stream? name = some sq' ∧ sq'.nextSeq = sq.nextSeq

/-- Every queue's messages are its records, without ordering keys, or there are none if
there is no storage or the name is a stream's too; and no stream has a message. -/
structure Snapshottable (w : World) : Prop where
  queues : ∀ name q, w.queue? name = some q →
    (if w.stream? name = none then (w.snapshotted name).map (fun sm => (sm, "")) else []).Perm
      (q.live.map Message.contents)
  streams : ∀ name sq, w.stream? name = some sq → sq.nextSeq = 1

theorem Restored.live {snapshot : FSMSnapshot} (hsnapshot : Snapshots w snapshot)
    (h : Restored snapshot w') (hq : (w.queue? name).isSome) :
    (w'.queueAt name).live.map Message.contents =
      if w.stream? name = none then (w.snapshotted name).map (fun sm => (sm, "")) else [] := by
  have hview : Message.contents ∘ SnapshotMessage.message = fun sm => (sm, "") :=
    funext SnapshotMessage.contents_message
  rw [Queue.live, (h.idle.queues name).inFlight, entries_empty, append_nil, h.queues,
    hsnapshot.queues, List.map_map, hview]
  by_cases hstream : w.stream? name = none
  · simp [hq, hstream]
  · simp [hstream]

/-- On a node after any run a snapshot can be taken, and restored on a new node; what
it preserves is the whole state exactly if the state is its records. -/
theorem snapshot_preserves_iff {present : Bool} {limit : UInt64} {log : List Command}
    (run : Node.Runs (.node present limit) log w) (newPresent : Bool) (newLimit : UInt64)
    (order : List String) (env : Message → Env) :
    ∃ snapshot w', FSM.snapshot.run w = (.ok snapshot, w) ∧
      (FSM.restore snapshot order env).run (.node newPresent newLimit) = (.ok none, w') ∧
      (Preserved w w' ↔ Snapshottable w) := by
  have hquiet := (run.steady (Node.node_steady present limit)).1.quiet
  have ⟨snapshot, _, htake, hsame, hsnapshot⟩ := returns_iff.mp (snapshot_returns hquiet)
  have ⟨_, w', hrestore, hnone, hrestored⟩ := returns_iff.mp
    (restore_returns newPresent newLimit snapshot order env)
  refine ⟨snapshot, w', hsame ▸ htake, hnone ▸ hrestore, fun h => ⟨?_, ?_⟩, fun h => ⟨?_, ?_⟩⟩
  · intro name q hq
    rw [← hrestored.live hsnapshot (by rw [hq]; rfl)]
    exact h.queues name q hq
  · intro name sq hsq
    have ⟨sq', hsq', hseq⟩ := h.streams name sq hsq
    have ⟨_, hnew, hfirst⟩ := hrestored.streams name ((hsnapshot.streams name).mpr (by rw [hsq]; rfl))
    cases hnew.symm.trans hsq'
    exact hseq.symm.trans hfirst
  · intro name q hq
    rw [hrestored.live hsnapshot (by rw [hq]; rfl)]
    exact h.queues name q hq
  · intro name sq hsq
    have ⟨sq', hsq', hfirst⟩ := hrestored.streams name
      ((hsnapshot.streams name).mpr (by rw [hsq]; rfl))
    exact ⟨sq', hsq', hfirst.trans (h.streams name sq hsq).symm⟩

namespace Node

def publishEvent : Command := .publish ⟨"events", "a", [1], ∅, 0, true⟩

def restoreEnv : Message → Env := fun _ => epochEnv.enqueue

/-- A message published to a queue is preserved, as long as nothing else happens to it. -/
theorem snapshot_preserves_pending :
    ∃ w snapshot w', Runs (.node true 0) [publishOrder] w ∧
      FSM.snapshot.run w = (.ok snapshot, w) ∧
      (FSM.restore snapshot ["orders"] restoreEnv).run (.node true 0) = (.ok none, w') ∧
      Preserved w w' := by
  have run : Runs (.node true 0) [publishOrder] (applied publishOrder (.node true 0)) :=
    Run.start.next (.command publishOrder epochEnv (Prod.ext rfl rfl))
  have ⟨snapshot, w', htake, hrestore, hpreserved⟩ :=
    snapshot_preserves_iff run true 0 ["orders"] restoreEnv
  refine ⟨_, snapshot, w', run, htake, hrestore, hpreserved.mpr ⟨fun name q hq => ?_, ?_⟩⟩
  · have hname : q.name = "orders" := by
      have hmem := (KeyedMap.find?_eq_some_iff.mp hq).1
      exact congrArg Queue.name (List.mem_singleton.mp hmem)
    obtain rfl := (World.queue?_name hq).symm.trans hname
    cases hq
    exact .refl _
  · intro name sq hsq
    cases hsq

/-- A stream with one message begins again. -/
theorem snapshot_resets_stream :
    ∃ w snapshot w', Runs (.node true 0) [publishEvent] w ∧
      FSM.snapshot.run w = (.ok snapshot, w) ∧
      (FSM.restore snapshot [] restoreEnv).run (.node true 0) = (.ok none, w') ∧
      (w.stream? "events").map StreamQueue.nextSeq = some 2 ∧
      (w'.stream? "events").map StreamQueue.nextSeq = some 1 :=
  ⟨_, _, _, Run.start.next (.command publishEvent epochEnv (Prod.ext rfl rfl)),
    Prod.ext rfl rfl, Prod.ext rfl rfl, rfl, rfl⟩

end Node

end QwerQ
