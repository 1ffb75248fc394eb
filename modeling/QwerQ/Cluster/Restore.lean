import QwerQ.Cluster.Snapshot

/-! A snapshot restored on a node that has a storage already. The restore writes the
snapshot's messages over the records and deletes none, so a later recovery brings back
whatever the snapshot has not overwritten. -/
namespace QwerQ
open List Process KeyedMap Option Storage
variable {w w' : World} {name : String} {s s' : Storage}

def Storage.isQueue (name : String) (s : Storage) : Bool :=
  (s.queues.find? name).any fun entry => entry.2.mode ≠ .stream

/-- The records of a queue that is stored as one. -/
def Storage.recovers (name : String) (s : Storage) : List Message :=
  if s.isQueue name then s.loadMessages name else []

theorem Recovered.live_contents (h : Recovered s w) (name : String) :
    (w.queueAt name).live.map Message.contents = (s.recovers name).map Message.contents := by
  have hcopy : Message.contents ∘ recovered = Message.contents := rfl
  rw [World.queueAt, h.queues, Storage.recovers, Storage.isQueue]
  cases hentry : s.queues.find? name with
  | none => rfl
  | some entry =>
    have hname : entry.1 = name := (find?_eq_some_iff.mp hentry).2
    by_cases hmode : entry.2.mode = .stream
    · simp [Storage.loadedQueue?, hmode, Queue.live, Queue.new]
    · simp [Storage.loadedQueue?, hmode, Queue.live, Storage.loadedQueue, Queue.configured, Queue.new,
        hname, hcopy]

structure World.Unused (w : World) : Prop where
  present : w.disk.present = true
  queues : ∀ name, (w.queueAt name).Idle

def Storage.saveAll (messages : List SnapshotMessage) (s : Storage) : Storage :=
  messages.foldl (fun s sm => s.saveMessage sm.message) s

theorem Storage.saveAll_append (left right : List SnapshotMessage) (s : Storage) :
    s.saveAll (left ++ right) = (s.saveAll left).saveAll right := foldl_append

theorem Storage.saveAll_queues (messages : List SnapshotMessage) (s : Storage) :
    (s.saveAll messages).queues = s.queues := by
  induction messages generalizing s with
  | nil => rfl
  | cons sm rest ih => exact ih (s.saveMessage sm.message)

theorem Storage.saveAll_messages (h : s.messages = s'.messages) (messages : List SnapshotMessage) :
    (s.saveAll messages).messages = (s'.saveAll messages).messages := by
  induction messages generalizing s s' with
  | nil => exact h
  | cons sm rest ih => exact ih (congrArg (fun map => map.insert sm.message) h)

/-- Messages have been saved, and of the queues only their contents have changed. -/
structure Saves (messages : List SnapshotMessage) (w w' : World) : Prop where
  unused : w'.Unused
  storage : w'.disk.storage = w.disk.storage.saveAll messages
  quiet : w.disk.Quiet → w'.disk.Quiet
  queues : ∀ other, w.queue? other = none → w'.queue? other = none

theorem Disk.write_quiet {d : Disk} (change : Storage → Storage) (h : d.Quiet) :
    (d.write change).2.Quiet := by
  rw [h.write_eq]
  exact h.stores change

theorem restoreMessages_saves (env : Message → Env) (messages : List SnapshotMessage)
    (h : w.Unused) :
    (FSM.restoreMessages (some name) env messages).Ensures w fun err w' =>
      err = none → Saves messages w w' := by
  induction messages generalizing w with
  | nil => exact fun _ => ⟨h, rfl, id, fun _ => id⟩
  | cons sm rest ih =>
    simp only [FSM.restoreMessages, ensures_bind, ensures_lockedPure]
    rintro _ q q' msg ⟨⟩ hq hbody
    have hidle : q.Idle := World.queueAt_of_some hq ▸ h.queues name
    rw [Queue.enqueueDirect_unconsumed _ _ hidle.consumers hidle.ungrouped] at hbody
    obtain ⟨rfl, hmsg⟩ := Prod.mk.inj (Except.ok.inj hbody)
    have hfinal : msg = sm.message := by
      rw [← hmsg]
      simp [asEnqueued]
    simp only [saveMessage, ensures_write, World.setQueue_disk, hfinal]
    cases hwrite : w.disk.write (Storage.saveMessage sm.message) with
    | mk refused disk =>
      cases refused with
      | some err => exact fun hnone => by cases hnone
      | none =>
        have hpresent : disk.present = true := by
          have hkept : (w.disk.write (Storage.saveMessage sm.message)).2.present = true :=
            Disk.write_present h.present
          rwa [hwrite] at hkept
        let filled : Queue := { q with messages := q.messages ++ [sm.message] }
        let next : World := { w.setQueue filled with disk := disk }
        have hnext : next.Unused := by
          refine ⟨hpresent, fun other => ?_⟩
          have hset : next.queueAt other = if other = name then filled else w.queueAt other :=
            World.queueAt_setQueue hq (show filled.name = q.name from rfl) other
          rw [hset]
          split
          · exact ⟨⟨hidle.routed, hidle.ungrouped⟩, hidle.consumers, hidle.inFlight⟩
          · exact h.queues other
        refine (ih hnext).mono fun err w' hsaves hnone => ?_
        have hrest := hsaves hnone
        refine ⟨hrest.unused, ?_, fun hquiet => hrest.quiet ?_, fun other hother => hrest.queues other ?_⟩
        · rw [hrest.storage, show next.disk.storage = _ from Disk.write_accepted hwrite hpresent]
          rfl
        · have hkept := Disk.write_quiet (Storage.saveMessage sm.message) hquiet
          rwa [hwrite] at hkept
        · have hne : other ≠ filled.name := by
            rintro rfl
            cases (World.queue?_name hq ▸ hother : w.queue? name = none).symm.trans hq
          have hset : next.queue? other = w.queue? other := World.queue?_setQueue_of_ne w hne
          rw [hset, hother]

/-- The messages are saved. A queue is stored as one if it has been created, which may
have failed if it has no messages. -/
structure Reconciled (entries : List (String × List SnapshotMessage)) (w w' : World) : Prop where
  messages : w'.disk.storage.messages = (w.disk.storage.saveAll (entries.flatMap Prod.snd)).messages
  configs : ∀ name,
    w'.disk.storage.isQueue name = true ∧ name ∈ entries.map Prod.fst ∨
    w'.disk.storage.isQueue name = w.disk.storage.isQueue name ∧ restoredTo name entries = [] ∧
      (w.disk.Quiet → name ∉ entries.map Prod.fst)

theorem Storage.isQueue_congr (h : s.queues = s'.queues) (name : String) :
    s.isQueue name = s'.isQueue name := by
  rw [isQueue, h, isQueue]

theorem Storage.isQueue_saveQueue (s : Storage) (first name : String) :
    (s.saveQueue first (newConfig (Queue.new first))).isQueue name =
      if name = first then true else s.isQueue name := by
  rw [isQueue, saveQueue, find?_insert]
  split <;> rfl

theorem createQueue_unused (h : w.Unused) (hnew : w.queue? name = none) (hsaves : ¬ w.disk.fails 0) :
    ∃ next : World, createQueue name w = (none, next) ∧ next.Unused ∧
      next.disk.storage = w.disk.storage.saveQueue name (newConfig (Queue.new name)) ∧
      (w.disk.Quiet → next.disk.Quiet) ∧
      ∀ other, other ≠ name → next.queue? other = w.queue? other := by
  have hwrite := Disk.write_of_not_fails (Storage.saveQueue name (newConfig (Queue.new name))) hsaves
  rw [Disk.wrote, if_pos h.present] at hwrite
  refine ⟨{ w.setQueue (Queue.new name) with
      disk := w.disk.called (w.disk.storage.saveQueue name (newConfig (Queue.new name))) },
    by simp only [createQueue, hnew, hwrite], ⟨h.present, fun other => ?_⟩, rfl,
    fun hquiet => ?_, fun other hother => World.queue?_setQueue_of_ne w hother⟩
  · exact (World.queueAt_create hnew other).symm ▸ h.queues other
  · have hkept := Disk.write_quiet (Storage.saveQueue name (newConfig (Queue.new name))) hquiet
    rwa [hwrite] at hkept

theorem restoredTo_cons_of_ne {first : String} {messages : List SnapshotMessage}
    {rest : List (String × List SnapshotMessage)} (hname : name ≠ first) :
    restoredTo name ((first, messages) :: rest) = restoredTo name rest := by
  simp [restoredTo, Ne.symm hname]

section Queues
variable {first : String} {messages : List SnapshotMessage}
  {rest : List (String × List SnapshotMessage)}

/-- The pointer is nil, which only a queue without messages survives. -/
theorem Reconciled.skip (hloud : ¬ w.disk.Quiet)
    (h : Reconciled rest { w with disk := w.disk.called w.disk.storage } w') :
    Reconciled ((first, []) :: rest) w w' := by
  refine ⟨h.messages, fun name => ?_⟩
  rcases h.configs name with ⟨hqueue, hmem⟩ | ⟨hsame, hempty, _⟩
  · exact .inl ⟨hqueue, .tail _ hmem⟩
  · refine .inr ⟨hsame, ?_, fun hquiet => absurd hquiet hloud⟩
    by_cases hname : name = first
    · simp [restoredTo, hname]
    · rw [restoredTo_cons_of_ne hname, hempty]

theorem Reconciled.cons {next middle : World}
    (hstored : next.disk.storage = w.disk.storage.saveQueue first (newConfig (Queue.new first)))
    (hquiet : w.disk.Quiet → next.disk.Quiet) (hsaves : Saves messages next middle)
    (h : Reconciled rest middle w') : Reconciled ((first, messages) :: rest) w w' := by
  have hmiddle (name : String) : middle.disk.storage.isQueue name =
      if name = first then true else w.disk.storage.isQueue name := by
    rw [← isQueue_saveQueue, ← hstored, hsaves.storage]
    exact isQueue_congr (saveAll_queues messages _) name
  refine ⟨?_, fun name => ?_⟩
  · have hkept : (w.disk.storage.saveQueue first (newConfig (Queue.new first))).messages =
        w.disk.storage.messages := rfl
    rw [h.messages, hsaves.storage, hstored, ← saveAll_append, flatMap_cons]
    exact saveAll_messages hkept _
  · rcases h.configs name with ⟨hqueue, hmem⟩ | ⟨hsame, hempty, hmissing⟩
    · exact .inl ⟨hqueue, .tail _ hmem⟩
    · rw [hmiddle] at hsame
      by_cases hname : name = first
      · rw [if_pos hname] at hsame
        exact .inl ⟨hsame, hname ▸ .head _⟩
      · rw [if_neg hname] at hsame
        refine .inr ⟨hsame, (restoredTo_cons_of_ne hname).trans hempty, fun hw hmem => ?_⟩
        rcases mem_cons.mp hmem with hfirst | hrest
        · exact hname hfirst
        · exact hmissing (hsaves.quiet (hquiet hw)) hrest

end Queues

theorem restoreQueues_reconciles (env : Message → Env)
    {entries : List (String × List SnapshotMessage)} (h : w.Unused)
    (hnodup : (entries.map Prod.fst).Nodup) (hnew : ∀ entry ∈ entries, w.queue? entry.1 = none) :
    (FSM.restoreQueues env entries).Ensures w fun err w' => err = none → Reconciled entries w w' := by
  induction entries generalizing w with
  | nil => exact fun _ => ⟨rfl, fun name => .inr ⟨rfl, rfl, fun _ => not_mem_nil⟩⟩
  | cons entry rest ih =>
    obtain ⟨first, messages⟩ := entry
    rw [map_cons, nodup_cons] at hnodup
    have hfirst : w.queue? first = none := hnew _ mem_cons_self
    have hlater {later : String × List SnapshotMessage} (hmem : later ∈ rest) : later.1 ≠ first :=
      fun heq => hnodup.1 (mem_map.mpr ⟨later, hmem, heq⟩)
    simp only [FSM.restoreQueues, ensures_bind, ensures_getOrCreateQueue]
    by_cases hfails : w.disk.fails 0
    · obtain ⟨err, hcreate⟩ := createQueue_fails hfirst hfails
      have hloud : ¬ w.disk.Quiet := fun hquiet => hfails.2 (by rw [hquiet])
      simp only [hcreate, isSome_some, if_true]
      cases messages with
      | cons sm later =>
        simp only [FSM.restoreMessages, ensures_bind, ensures_lockedPure]
        exact fun _ _ _ _ hnil => by cases hnil
      | nil =>
        have hcalled : ({ w with disk := w.disk.called w.disk.storage } : World).Unused :=
          ⟨h.present, h.queues⟩
        exact (ih hcalled hnodup.2 fun entry hentry => hnew entry (.tail _ hentry)).mono
          fun err w' hrest hnone => (hrest hnone).skip hloud
    · obtain ⟨next, hcreate, hunused, hstored, hquiet, hothers⟩ := createQueue_unused h hfirst hfails
      simp only [hcreate, isSome_none, Bool.false_eq_true, if_false]
      refine (restoreMessages_saves env messages hunused).mono fun refused middle hsaves => ?_
      cases refused with
      | some err => exact fun hnone => by cases hnone
      | none =>
        have hsaves := hsaves rfl
        refine (ih hsaves.unused hnodup.2 fun entry hentry => hsaves.queues _ ?_).mono
          fun err w' hrest hnone => .cons hstored hquiet hsaves (hrest hnone)
        rw [hothers _ (hlater hentry)]
        exact hnew entry (.tail _ hentry)

/-- The records are as they were, and no name has become a queue's. -/
structure StreamsMade (w w' : World) : Prop where
  present : w'.disk.present = true
  queues : w'.broker.queues = w.broker.queues
  messages : w'.disk.storage.messages = w.disk.storage.messages
  isQueue : ∀ name, w'.disk.storage.isQueue name = true → w.disk.storage.isQueue name = true

theorem createStreamQueue_made (hpresent : w.disk.present = true) (name : String) :
    StreamsMade w (createStreamQueue name w).2 := by
  cases hsq : w.stream? name with
  | some sq =>
    simp only [createStreamQueue, hsq]
    exact ⟨hpresent, rfl, rfl, fun _ => id⟩
  | none =>
    rcases createStreamQueue_cases hpresent hsq with
      ⟨err, disk, hcreate, hkept, hstorage⟩ | ⟨seq, disk, hcreate, hkept, hstorage⟩
    · rw [hcreate]
      refine ⟨hkept, rfl, congrArg Storage.messages hstorage, fun other hother => ?_⟩
      rwa [show disk.storage = w.disk.storage from hstorage] at hother
    · rw [hcreate]
      have hmessages : disk.storage.messages = w.disk.storage.messages := by
        rw [hstorage]
        rfl
      refine ⟨hkept, rfl, hmessages, fun other hother => ?_⟩
      rw [show disk.storage = _ from hstorage, Storage.isQueue, Storage.saveQueue,
        find?_insert] at hother
      split at hother
      · cases hother
      · exact hother

theorem restoreStreams_made (names : List String) (hpresent : w.disk.present = true) :
    (FSM.restoreStreams names).Ensures w fun _ w' => StreamsMade w w' := by
  induction names generalizing w with
  | nil => exact ⟨hpresent, rfl, rfl, fun _ => id⟩
  | cons first rest ih =>
    have hfirst := createStreamQueue_made hpresent first
    simp only [FSM.restoreStreams, ensures_bind, ensures_getOrCreateStreamQueue]
    refine (ih hfirst.present).mono fun _ w' hrest => ?_
    exact ⟨hrest.present, hrest.queues.trans hfirst.queues, hrest.messages.trans hfirst.messages,
      fun name hname => hfirst.isQueue name (hrest.isQueue name hname)⟩

def failing (n : Nat) : Nat → Option String := fun call => if call < n then some "" else none

theorem restoreStreams_failing (names : List String) {b : Broker} (hnone : b.streamQueues = ∅) :
    (FSM.restoreStreams names).Returns ⟨b, ⟨true, s, failing (2 * names.length)⟩⟩ fun _ w' =>
      w' = ⟨b, ⟨true, s, failing 0⟩⟩ := by
  induction names with
  | nil => rfl
  | cons first rest ih =>
    have hcreate : createStreamQueue first ⟨b, ⟨true, s, failing (2 * (first :: rest).length)⟩⟩ =
        (some (.storage ""), ⟨b, ⟨true, s, failing (2 * rest.length)⟩⟩) := by
      have hshift : (fun n => failing (2 * (first :: rest).length) (n + 1 + 1)) =
          failing (2 * rest.length) := by
        funext n
        simp only [failing, length_cons]
        congr 1
        simp only [eq_iff_iff]
        omega
      have hsq : World.stream? first ⟨b, ⟨true, s, failing (2 * (first :: rest).length)⟩⟩ = none := by
        rw [World.stream?, hnone]
        rfl
      rw [createStreamQueue, hsq]
      have hfails (n : Nat) (hn : n < 2) : failing (2 * (first :: rest).length) n = some "" := by
        rw [failing, length_cons, if_pos (by omega)]
      simp only [Disk.read, Disk.write, Disk.called, hfails 0 (by decide), hfails (0 + 1) (by decide),
        if_true, hshift]
    simp only [FSM.restoreStreams, returns_bind, returns_getOrCreateStreamQueue, hcreate]
    exact ih

def FSMSnapshot.messagesOf (name : String) (snapshot : FSMSnapshot) : List SnapshotMessage :=
  ((snapshot.queues.find? name).map Prod.snd).getD []

section Restore
variable {snapshot : FSMSnapshot} {order : List String} {env : Message → Env}

theorem restoredTo_inOrder (snapshot : FSMSnapshot) (order : List String) (name : String) :
    restoredTo name (snapshot.queues.inOrder order) = snapshot.messagesOf name := by
  rw [restoredTo, find?_inOrder]
  rfl

theorem mem_inOrder_names : name ∈ (snapshot.queues.inOrder order).map Prod.fst ↔
    snapshot.queues.find? name ≠ none := by
  rw [((snapshot.queues.inOrder_perm order).map Prod.fst).mem_iff, ← isSome_find?_iff,
    isSome_iff_ne_none]

theorem restore_reconciles (hpresent : w.disk.present = true) :
    (FSM.restore snapshot order env).Ensures w fun err w' => err = none → ∃ opened,
      opened.disk.storage.messages = w.disk.storage.messages ∧
      (∀ name, opened.disk.storage.isQueue name = true → w.disk.storage.isQueue name = true) ∧
      Reconciled (snapshot.queues.inOrder order) opened w' := by
  simp only [FSM.restore, FSM.resetForRestore, ensures_bind, ensures_step, ensures_done]
  refine (restoreStreams_made snapshot.streamQueues (by exact hpresent)).mono fun _ opened hmade => ?_
  have hnone (name : String) : opened.queue? name = none := by
    rw [World.queue?, hmade.queues]
    rfl
  have hunused : opened.Unused := by
    refine ⟨hmade.present, fun name => ?_⟩
    rw [World.queueAt, hnone]
    exact Queue.idle_new name
  exact (restoreQueues_reconciles env hunused (snapshot.queues.inOrder_nodup order)
    fun entry _ => hnone entry.1).mono fun err w' h herr => ⟨opened, hmade.messages, hmade.isQueue, h herr⟩

theorem restore_without_streams (snapshot : FSMSnapshot) (order : List String) (env : Message → Env)
    (b : Broker) (s : Storage) : ∃ faults opened w',
      (FSM.restore snapshot order env).run ⟨b, ⟨true, s, faults⟩⟩ = (.ok none, w') ∧
      opened.disk.storage = s ∧ opened.disk.Quiet ∧
      Reconciled (snapshot.queues.inOrder order) opened w' := by
  let cleared : Broker := { b with queues := ∅, streamQueues := ∅ }
  let opened : World := ⟨cleared, ⟨true, s, failing 0⟩⟩
  have hquiet : opened.disk.Quiet := by
    funext n
    simp [opened, failing]
  have hidle : opened.Idle := ⟨fun name => Queue.idle_new name, hquiet⟩
  have hnodup := snapshot.queues.inOrder_nodup order
  have hreturns : (FSM.restore snapshot order env).Returns
      ⟨b, ⟨true, s, failing (2 * snapshot.streamQueues.length)⟩⟩ fun err w' =>
        err = none ∧ Reconciled (snapshot.queues.inOrder order) opened w' := by
    simp only [FSM.restore, FSM.resetForRestore, returns_bind, returns_step, returns_done]
    refine (restoreStreams_failing snapshot.streamQueues (b := cleared) rfl).mono ?_
    rintro _ _ rfl
    have ⟨err, w', hrun, hnone, _⟩ := returns_iff.mp (restoreQueues_returns env hidle hnodup)
    have hreconciled := ensures_iff.mp (restoreQueues_reconciles env ⟨rfl, hidle.queues⟩ hnodup
      fun entry _ => rfl) err w' hrun
    exact returns_iff.mpr ⟨err, w', hrun, hnone, hreconciled hnone⟩
  have ⟨err, w', hrun, hnone, hreconciled⟩ := returns_iff.mp hreturns
  exact ⟨_, opened, w', hnone ▸ hrun, rfl, hquiet, hreconciled⟩

structure FSMSnapshot.WellFormed (snapshot : FSMSnapshot) : Prop where
  own : ∀ name, ∀ sm ∈ snapshot.messagesOf name, sm.queue = name
  distinct : ∀ name, ((snapshot.messagesOf name).map SnapshotMessage.id).Nodup

theorem Snapshots.wellFormed (h : Snapshots w snapshot) : snapshot.WellFormed := by
  have hmessages (name : String) : snapshot.messagesOf name = [] ∨
      snapshot.messagesOf name = (w.disk.storage.loadMessages name).map .of := by
    rw [FSMSnapshot.messagesOf, h.queues, World.snapshotted]
    split
    · split
      · exact .inr rfl
      · exact .inl rfl
    · exact .inl rfl
  refine ⟨fun name sm hsm => ?_, fun name => ?_⟩
  · rcases hmessages name with hnil | hload
    · simp [hnil] at hsm
    · obtain ⟨msg, hmsg, hof⟩ := mem_map.mp (hload ▸ hsm)
      rw [← hof]
      exact (mem_loadMessages.mp hmsg).2
  · rcases hmessages name with hnil | hload
    · simp [hnil]
    · rw [hload, List.map_map]
      exact w.disk.storage.loadMessages_ids_nodup name

section Records
variable (hformed : snapshot.WellFormed) {opened : World}
  (h : Reconciled (snapshot.queues.inOrder order) opened w')
include hformed

omit hformed in
theorem mem_inOrder {entry : String × List SnapshotMessage} :
    entry ∈ snapshot.queues.inOrder order ↔ snapshot.queues.find? entry.1 = some entry := by
  rw [(snapshot.queues.inOrder_perm order).mem_iff, find?_eq_some_iff]
  exact (and_iff_left rfl).symm

omit hformed in
theorem messagesOf_entry {entry : String × List SnapshotMessage}
    (h : entry ∈ snapshot.queues.inOrder order) : snapshot.messagesOf entry.1 = entry.2 := by
  rw [FSMSnapshot.messagesOf, mem_inOrder.mp h]
  rfl

theorem FSMSnapshot.WellFormed.mem_all {sm : SnapshotMessage} :
    sm ∈ (snapshot.queues.inOrder order).flatMap Prod.snd ↔ sm ∈ snapshot.messagesOf sm.queue := by
  rw [mem_flatMap]
  constructor
  · rintro ⟨entry, hmem, hsm⟩
    rw [← messagesOf_entry hmem] at hsm
    rwa [hformed.own entry.1 sm hsm]
  · intro hsm
    rw [messagesOf] at hsm
    cases hfind : snapshot.queues.find? sm.queue with
    | none => simp [hfind] at hsm
    | some entry =>
      have hname : entry.1 = sm.queue := (find?_eq_some_iff.mp hfind).2
      exact ⟨entry, mem_inOrder.mpr (hname ▸ hfind), by simpa [hfind] using hsm⟩

theorem FSMSnapshot.WellFormed.keys_nodup (order : List String) :
    (((snapshot.queues.inOrder order).flatMap Prod.snd).map fun sm => (sm.queue, sm.id)).Nodup := by
  rw [map_flatMap, nodup_flatMap]
  constructor
  · intro entry hmem
    refine List.Nodup.of_map Prod.snd ?_
    rw [List.map_map, ← messagesOf_entry hmem]
    exact hformed.distinct entry.1
  · have hnames := pairwise_map.mp (snapshot.queues.inOrder_nodup order)
    refine hnames.imp_of_mem fun {left right} hleft hright hne key hl hr => hne ?_
    have ⟨sm, hsm, hkey⟩ := mem_map.mp hl
    have ⟨sm', hsm', hkey'⟩ := mem_map.mp hr
    rw [← messagesOf_entry hleft] at hsm
    rw [← messagesOf_entry hright] at hsm'
    rw [← hformed.own _ _ hsm, ← hformed.own _ _ hsm']
    exact congrArg Prod.fst (hkey.trans hkey'.symm)

include h

theorem Reconciled.find? (key : String × String) :
    w'.disk.storage.messages.find? key =
      ((((snapshot.queues.inOrder order).flatMap Prod.snd).find? fun sm => (sm.queue, sm.id) = key).map
        SnapshotMessage.message).or (opened.disk.storage.messages.find? key) := by
  have hstep (s : Storage) (sm : SnapshotMessage) (_ : True) :
      (s.saveMessage sm.message).messages.find? key =
        if (sm.queue, sm.id) = key then (some sm.message).or (s.messages.find? key)
        else s.messages.find? key := by
    rw [Storage.saveMessage, find?_insert, some_or]
    exact if_congr eq_comm rfl rfl
  have hlookup := foldl_lookup (fun (s : Storage) (sm : SnapshotMessage) => s.saveMessage sm.message)
    (fun s => s.messages.find? key) (fun sm => some sm.message) (fun _ => True) (fun _ _ h => h) hstep
    (hformed.keys_nodup order) (s := opened.disk.storage) trivial
  rw [h.messages, map_eq_bind]
  exact hlookup

theorem Reconciled.saved {sm : SnapshotMessage} (hsm : sm ∈ snapshot.messagesOf name) :
    w'.disk.storage.messages.find? (name, sm.id) = some sm.message := by
  have hqueue := hformed.own name sm hsm
  have hfound := (find?_eq_some_iff_of_nodup (hformed.keys_nodup order)).mpr
    ⟨hformed.mem_all.mpr (hqueue ▸ hsm), (by rw [hqueue] : (sm.queue, sm.id) = (name, sm.id))⟩
  rw [h.find? hformed, hfound]
  rfl

theorem Reconciled.kept {id : String} (hfree : ∀ sm ∈ snapshot.messagesOf name, sm.id ≠ id) :
    w'.disk.storage.messages.find? (name, id) = opened.disk.storage.messages.find? (name, id) := by
  rw [h.find? hformed, find?_eq_none.mpr, map_none, none_or]
  intro sm hsm hkey
  have ⟨hqueue, hid⟩ := Prod.mk.inj (of_decide_eq_true hkey)
  exact hfree sm (hqueue ▸ hformed.mem_all.mp hsm) hid

end Records

/-- After a restore without an error, a new broker over the storage recovers the
snapshot's messages and no others. -/
def RestoresExactly (snapshot : FSMSnapshot) (s : Storage) : Prop :=
  ∀ b faults order env w', (FSM.restore snapshot order env).run ⟨b, ⟨true, s, faults⟩⟩ = (.ok none, w') →
    ∀ memoryLimit order env,
      (loadFromStorage order env).Returns ⟨Broker.new memoryLimit, ⟨true, w'.disk.storage, fun _ => none⟩⟩
        fun err loaded => err = none ∧ ∀ name, ((loaded.queueAt name).live.map Message.contents).Perm
          ((snapshot.messagesOf name).map fun sm => (sm, ""))

/-- The snapshot overwrites every record, but for those of names that neither it nor the
storage has as a queue. -/
structure FSMSnapshot.Covers (snapshot : FSMSnapshot) (s : Storage) : Prop extends WellFormed snapshot where
  stale : ∀ msg ∈ s.messages.entries, (∃ sm ∈ snapshot.messagesOf msg.queue, sm.id = msg.id) ∨
    snapshot.queues.find? msg.queue = none ∧ s.isQueue msg.queue = false

theorem loads_exactly_iff (s : Storage) (messages : String → List SnapshotMessage) (memoryLimit : UInt64)
    (order : List String) (env : Message → Env) :
    ((loadFromStorage order env).Returns ⟨Broker.new memoryLimit, ⟨true, s, fun _ => none⟩⟩
      fun err loaded => err = none ∧ ∀ name, ((loaded.queueAt name).live.map Message.contents).Perm
        ((messages name).map fun sm => (sm, ""))) ↔
    ∀ name, ((s.recovers name).map Message.contents).Perm ((messages name).map fun sm => (sm, "")) := by
  have ⟨err, loaded, hrun, hnone, hrecovered⟩ := returns_iff.mp (loadFromStorage_recovers
    (w := ⟨Broker.new memoryLimit, ⟨true, s, fun _ => none⟩⟩) order env ⟨rfl, rfl⟩ (fun _ => rfl) fun _ => rfl)
  rw [Returns, hrun]
  simp only [hnone, true_and, hrecovered.live_contents]

theorem Storage.recovers_ids_nodup (s : Storage) (name : String) :
    ((s.recovers name).map Message.id).Nodup := by
  unfold recovers
  split
  · exact s.loadMessages_ids_nodup name
  · exact nodup_nil

theorem Storage.mem_recovers {msg : Message} : msg ∈ s.recovers name ↔
    s.isQueue name = true ∧ s.messages.find? (name, msg.id) = some msg := by
  rw [recovers]
  split
  · rename_i hqueue
    rw [mem_loadMessages, find?_eq_some_iff, Prod.mk.injEq]
    simp [hqueue]
  · rename_i hqueue
    simp [hqueue]

theorem restoresExactly_of_covers (h : snapshot.Covers s) : RestoresExactly snapshot s := by
  intro b faults order env w' hrun memoryLimit order' env'
  have ⟨opened, hmessages, hopened, hreconciled⟩ :=
    ensures_iff.mp (restore_reconciles (w := ⟨b, ⟨true, s, faults⟩⟩) rfl) none w' hrun rfl
  have hformed := h.toWellFormed
  refine (loads_exactly_iff _ snapshot.messagesOf memoryLimit order' env').mpr fun name => ?_
  have hnodup : ((w'.disk.storage.recovers name).map Message.contents).Nodup := by
    refine List.Nodup.of_map (fun contents => contents.1.id) ?_
    rw [List.map_map]
    exact recovers_ids_nodup _ name
  have hdistinct : ((snapshot.messagesOf name).map fun sm => (sm, "")).Nodup := by
    refine List.Nodup.of_map (fun contents => contents.1.id) ?_
    rw [List.map_map]
    exact h.distinct name
  refine (perm_ext_iff_of_nodup hnodup hdistinct).mpr fun contents => ?_
  rw [List.mem_map, List.mem_map]
  constructor
  · rintro ⟨msg, hmem, rfl⟩
    have ⟨hqueue, hfound⟩ := mem_recovers.mp hmem
    by_cases hcovered : ∃ sm ∈ snapshot.messagesOf name, sm.id = msg.id
    · have ⟨sm, hsm, hid⟩ := hcovered
      have hsaved := hreconciled.saved hformed hsm
      rw [hid, hfound] at hsaved
      exact ⟨sm, hsm, by rw [Option.some.inj hsaved, SnapshotMessage.contents_message]⟩
    · -- An old record, of a name that has not become a queue's.
      have hfree : ∀ sm ∈ snapshot.messagesOf name, sm.id ≠ msg.id :=
        fun sm hsm hid => hcovered ⟨sm, hsm, hid⟩
      rw [hreconciled.kept hformed hfree, hmessages] at hfound
      have ⟨hstored, hkey⟩ := find?_eq_some_iff.mp hfound
      have hname : msg.queue = name := congrArg Prod.fst hkey
      rcases h.stale msg hstored with hsm | ⟨hnone, hstream⟩
      · exact absurd (hname ▸ hsm) hcovered
      · rw [hname] at hnone hstream
        rcases hreconciled.configs name with ⟨_, hmem⟩ | ⟨hsame, _⟩
        · exact absurd hnone (mem_inOrder_names.mp hmem)
        · have hold := hopened name (hsame ▸ hqueue)
          cases hold.symm.trans hstream
  · rintro ⟨sm, hsm, rfl⟩
    refine ⟨sm.message, mem_recovers.mpr ⟨?_, hreconciled.saved hformed hsm⟩,
      SnapshotMessage.contents_message sm⟩
    rcases hreconciled.configs name with ⟨hqueue, _⟩ | ⟨_, hempty, _⟩
    · exact hqueue
    · rw [restoredTo_inOrder] at hempty
      simp [hempty] at hsm

theorem covers_of_restoresExactly (h : RestoresExactly snapshot s) : snapshot.Covers s := by
  have ⟨faults, opened, w', hrun, hopened, hquiet, hreconciled⟩ :=
    restore_without_streams snapshot [] (fun _ => ⟨⟨0, []⟩, fun _ => ⟨0, []⟩⟩) (Broker.new 0) s
  have hperm := (loads_exactly_iff _ snapshot.messagesOf 0 [] (fun _ => ⟨⟨0, []⟩, fun _ => ⟨0, []⟩⟩)).mp
    (h _ _ _ _ _ hrun 0 [] _)
  have hformed : snapshot.WellFormed := by
    refine ⟨fun name sm hsm => ?_, fun name => ?_⟩
    · have hmem := (hperm name).mem_iff.mpr (mem_map_of_mem hsm)
      have ⟨msg, hmsg, hcontents⟩ := mem_map.mp hmem
      have hkey := (find?_eq_some_iff.mp (mem_recovers.mp hmsg).2).2
      have hqueue : msg.queue = sm.queue := congrArg (fun contents => contents.1.queue) hcontents
      rw [← hqueue]
      exact congrArg Prod.fst hkey
    · have hids := ((hperm name).map fun contents => contents.1.id).nodup_iff.mp
      rw [List.map_map, List.map_map] at hids
      exact hids (recovers_ids_nodup _ name)
  refine ⟨hformed, fun msg hmsg => ?_⟩
  by_contra hstale
  rw [not_or, not_exists, not_and, Bool.not_eq_false] at hstale
  have hstored : s.messages.find? (msg.queue, msg.id) = some msg :=
    find?_eq_some_iff.mpr ⟨hmsg, rfl⟩
  have hkept : w'.disk.storage.messages.find? (msg.queue, msg.id) =
      opened.disk.storage.messages.find? (msg.queue, msg.id) :=
    hreconciled.kept hformed fun sm hsm hid => hstale.1 sm ⟨hsm, hid⟩
  rw [hopened, hstored] at hkept
  have hqueue : w'.disk.storage.isQueue msg.queue = true := by
    rcases hreconciled.configs msg.queue with ⟨hqueue, _⟩ | ⟨hsame, _, hmissing⟩
    · exact hqueue
    · rw [hsame, hopened]
      exact hstale.2 (not_not.mp (mt mem_inOrder_names.mpr (hmissing hquiet)))
  have hmem := mem_map_of_mem (f := Message.contents) (mem_recovers.mpr ⟨hqueue, hkept⟩)
  have ⟨sm, hsm, hcontents⟩ := mem_map.mp ((hperm msg.queue).mem_iff.mp hmem)
  exact hstale.1 sm ⟨hsm, congrArg (fun contents => contents.1.id) hcontents⟩

/-- A restore replaces what is stored in these cases only. -/
theorem restoresExactly_iff (snapshot : FSMSnapshot) (s : Storage) :
    RestoresExactly snapshot s ↔ snapshot.Covers s :=
  ⟨covers_of_restoresExactly, restoresExactly_of_covers⟩

end Restore

private def orders : FSMSnapshot :=
  ⟨(∅ : KeyedMap Prod.fst).insert ("orders", [.of (Queue.order "a")]), []⟩

private def outdated : Storage :=
  (Storage.empty.saveQueue "orders" (newConfig (Queue.new "orders"))).saveMessage (Queue.order "b")

theorem restore_keeps_outdated :
    ∃ w' loaded,
      (FSM.restore orders [] Node.restoreEnv).run ⟨Broker.new 0, ⟨true, outdated, fun _ => none⟩⟩ =
        (.ok none, w') ∧
      (loadFromStorage [] Node.restoreEnv).run (w'.restarted 0) = (.ok none, loaded) ∧
      w'.liveIds "orders" = ["a"] ∧ loaded.liveIds "orders" = ["a", "b"] :=
  ⟨_, _, rfl, rfl, rfl, rfl⟩

end QwerQ
