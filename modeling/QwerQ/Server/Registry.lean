import QwerQ.Queue.Registry
import QwerQ.Server

/-! The registrations of the whole broker, and what each frame of a connection does
to them. -/
namespace QwerQ
open List Process Function Queue

/-- The registrations by name. A queue that does not exist has none. -/
structure Registry where
  consumers : String → List Nat
  members : String → String → List (String × Nat)
  streams : String → List Nat

namespace World
variable {w w' w'' : World} {name group : String} {ch : Nat} {q q' : Queue} {g g' : ConsumerGroup}
  {sq : StreamQueue} {label : Queue → Disk → Label} {timeout : Duration}
  {effect : Registry → Registry}

def streamAt (name : String) (w : World) : StreamQueue :=
  (w.stream? name).getD (StreamQueue.new name (.ok 0))

def registry (w : World) : Registry where
  consumers name := (w.queueAt name).channels
  members name group := (w.queueAt name).rosterOf group
  streams name := (w.streamAt name).channels

structure Wired (w : World) : Prop where
  queues : ∀ name, (w.queueAt name).Wired
  streams : ∀ name, (w.streamAt name).Numbered

/-- The world stays wired, and the registry has changed as `effect` says. -/
structure Registers (effect : Registry → Registry) (w w' : World) : Prop where
  wired : w.Wired → w'.Wired
  registry : w'.registry = effect w.registry

theorem registers_refl (w : World) : Registers id w w := ⟨id, rfl⟩

theorem streamAt_of_some (h : w.stream? name = some sq) :
    w.streamAt name = sq := by
  rw [streamAt, h]
  rfl

theorem streamAt_setStream {sq' : StreamQueue} (hsq : w.stream? name = some sq)
    (hname : sq'.name = sq.name) (other : String) :
    (w.setStream sq').streamAt other = if other = name then sq' else w.streamAt other := by
  have hself : sq'.name = name := hname.trans (KeyedMap.find?_eq_some_iff.mp hsq).2
  rw [streamAt, stream?, setStream, KeyedMap.find?_insert, hself]
  split <;> rfl

theorem registers_of_eq (hqueues : ∀ name, w'.queueAt name = w.queueAt name)
    (hstreams : ∀ name, (w'.streamAt name).consumers = (w.streamAt name).consumers ∧
      (w'.streamAt name).made = (w.streamAt name).made) : Registers id w w' where
  wired h :=
    { queues := fun name => hqueues name ▸ h.queues name
      streams := fun name =>
        { distinct := by
            rw [StreamQueue.channels, (hstreams name).1]
            exact (h.streams name).distinct
          numbered := by
            rw [StreamQueue.channels, (hstreams name).1, (hstreams name).2]
            exact (h.streams name).numbered } }
  registry := by
    simp only [World.registry, hqueues, StreamQueue.channels, (hstreams _).1]
    rfl

theorem Registers.congr {other : Registry → Registry} (h : Registers effect w w')
    (heq : effect w.registry = other w.registry) : Registers other w w' :=
  ⟨h.wired, h.registry.trans heq⟩

theorem Registers.then (h : Registers id w w')
    (hnext : Registers effect w' w'') : Registers effect w w'' :=
  ⟨hnext.wired ∘ h.wired, by rw [hnext.registry, h.registry]; rfl⟩

theorem Registers.followed
    (h : Registers effect w w') (hnext : Registers id w' w'') : Registers effect w w'' :=
  ⟨hnext.wired ∘ h.wired, hnext.registry.trans h.registry⟩

theorem registers_setQueue (q' : Queue) (disk : Disk)
    (hq : w.queue? name = some q) (hname : q'.name = q.name) (hwired : q.Wired → q'.Wired) :
    Registers (fun r => { r with
      consumers := Function.update r.consumers name q'.channels
      members := Function.update r.members name fun group => q'.rosterOf group }) w
      { w.setQueue q' with disk := disk } := by
  have hat (other : String) : ({ w.setQueue q' with disk := disk } : World).queueAt other =
      if other = name then q' else w.queueAt other := queueAt_setQueue hq hname other
  refine ⟨fun h => ⟨fun other => ?_, h.streams⟩, ?_⟩
  · rw [hat]
    split
    · exact hwired (queueAt_of_some hq ▸ h.queues name)
    · exact h.queues other
  · simp only [World.registry, hat]
    congr 1
    · funext other
      rw [update_apply]
      split <;> rfl
    · funext other group
      rw [update_apply]
      split <;> rfl

theorem registry_consumers (hq : w.queue? name = some q) :
    w.registry.consumers name = q.channels :=
  congrArg Queue.channels (queueAt_of_some hq)

theorem registry_members (hq : w.queue? name = some q) :
    w.registry.members name = fun group => q.rosterOf group := by
  funext group
  exact congrArg (Queue.rosterOf group) (queueAt_of_some hq)

theorem registers_undisturbed (disk : Disk)
    (hq : w.queue? name = some q) (h : q.Undisturbed q') :
    Registers id w { w.setQueue q' with disk := disk } := by
  refine (registers_setQueue q' disk hq h.name h.wired).congr ?_
  simp only [h.channels, h.rosters, ← registry_consumers hq, ← registry_members hq,
    update_eq_self]
  rfl

end World

variable {ptr : Option String} {group queue memberID : String} {pass : Pass} {q : Queue}
  {sq : StreamQueue}

section Steps
open World
variable {w : World} {name : String} {label : Queue → Disk → Label}

theorem write_registers (change : Storage → Storage) :
    Registers id w { w with disk := (w.disk.write change).2 } :=
  registers_of_eq (fun _ => rfl) fun _ => ⟨rfl, rfl⟩

theorem createQueue_registers (name : String) (w : World) : Registers id w (createQueue name w).2 := by
  unfold createQueue
  split
  · exact registers_refl w
  · rename_i hnew
    split
    · exact registers_of_eq (fun _ => rfl) fun _ => ⟨rfl, rfl⟩
    · refine registers_of_eq (fun other => ?_) fun _ => ⟨rfl, rfl⟩
      by_cases hother : other = name
      · have hself := queue?_setQueue_self (Queue.new name) w
        rw [hother, queueAt, queueAt, hnew]
        exact congrArg (fun q => q.getD (Queue.new name)) hself
      · have hsame : (w.setQueue (Queue.new name)).queue? other = w.queue? other :=
          queue?_setQueue_of_ne w hother
        rw [queueAt, queueAt]
        exact congrArg (fun q => q.getD (Queue.new other)) hsame

theorem locked_registers
    {body : Queue → Disk → Go ((Queue × Disk) × α)}
    (hbody : ∀ {q disk q' disk' result}, body q disk = .ok ((q', disk'), result) → q.Undisturbed q') :
    (locked ptr label body).Ensures w fun _ w' => Registers id w w' := by
  rw [ensures_locked]
  intro name q q' disk result _ hq hok
  exact registers_undisturbed disk hq (hbody hok)

theorem lockedPure_registers {label : Queue → Label} {body : Queue → Go (Queue × α)}
    (hbody : ∀ {q q' result}, body q = .ok (q', result) → q.Undisturbed q') :
    (lockedPure ptr label body).Ensures w fun _ w' => Registers id w w' := by
  rw [ensures_lockedPure]
  intro name q q' result _ hq hok
  exact registers_undisturbed w.disk hq (hbody hok)

theorem lockedGroup_registers
    {body : Queue → ConsumerGroup → Disk → Go ((ConsumerGroup × Disk) × α)}
    (hbody : ∀ {q g disk g' disk' value}, body q g disk = .ok ((g', disk'), value) → g.SameRoster g') :
    (lockedGroup ptr group label body).Ensures w fun _ w' => Registers id w w' := by
  refine locked_registers fun {q disk q' disk' result} h => ?_
  rcases inGroup_cases h with ⟨_, rfl, _, _⟩ | ⟨g, g', _, hg, hok, rfl, _⟩
  · exact undisturbed_refl _
  · have hname : g.name = group := (KeyedMap.find?_eq_some_iff.mp hg).2
    exact undisturbed_insert (hname ▸ hg) (hbody hok)

theorem handleAck_registers (messageID queueName groupName : String) (pass : Pass) :
    (handleAck messageID queueName groupName pass).Ensures w fun _ w' => Registers id w w' := by
  simp only [handleAck, ensures_bind, ensures_getQueue]
  split
  · exact registers_refl w
  split
  · simp only [ensures_bind]
    refine (lockedGroup_registers ConsumerGroup.ackWithHook_sameRoster).mono fun result w' h => ?_
    split <;> exact h
  · exact locked_registers ackWithHook_undisturbed

theorem moveToDLQ_registers (queueName : String) (msg : Message) (env : NackEnv) :
    (moveToDLQ queueName msg env).Ensures w fun _ w' => Registers id w w' := by
  simp only [moveToDLQ, saveMessage, deleteMessage, ensures_bind, ensures_getOrCreateQueue,
    ensures_write]
  refine (lockedPure_registers ?_).mono fun moved next h => ?_
  · intro q q' result henqueue
    simp only [Go.bind_eq_ok, Go.pure_eq] at henqueue
    obtain ⟨_, hok, hret⟩ := henqueue
    cases hret
    exact enqueue_undisturbed hok
  · exact ((createQueue_registers _ w).then h).then ((write_registers _).then (write_registers _))

theorem settleNack_registers (queueName : String) (env : NackEnv) (result : NackResult)
    (err : Option Err) :
    (settleNack queueName env result err).Ensures w fun _ w' => Registers id w w' := by
  unfold settleNack
  split
  · exact registers_refl w
  split
  · exact registers_refl w
  split
  · split
    · simp only [ensures_bind]
      exact (moveToDLQ_registers queueName _ env).mono fun _ w' h => h
    · exact registers_refl w
  · exact registers_refl w

theorem handleNack_registers (messageID queueName groupName : String) (requeue : Bool)
    (env : NackEnv) :
    (handleNack messageID queueName groupName requeue env).Ensures w
      fun _ w' => Registers id w w' := by
  simp only [handleNack, ensures_bind, ensures_getQueue]
  split
  · exact registers_refl w
  split
  · simp only [ensures_bind]
    refine (lockedGroup_registers ConsumerGroup.nackWithHooks_sameRoster).mono
      fun result next h => ?_
    split
    · exact h
    · exact (settleNack_registers _ _ _ _).mono fun _ w' hnext => h.then hnext
  · simp only [ensures_bind]
    refine (locked_registers nackWithHooks_undisturbed).mono fun result next h => ?_
    exact (settleNack_registers _ _ _ _).mono fun _ w' hnext => h.then hnext

end Steps

namespace Registry

def Has (r : Registry) : Chan → Prop
  | .consumer queue ch => ch ∈ r.consumers queue
  | .member queue group ch => ch ∈ (r.members queue group).map Prod.snd
  | .stream queue ch => ch ∈ r.streams queue

def join (addr : String) : Chan → Registry → Registry
  | .consumer queue ch, r =>
      { r with consumers := Function.update r.consumers queue (r.consumers queue ++ [ch]) }
  | .member queue group ch, r =>
      let joined := Function.update (r.members queue) group (r.members queue group ++ [(addr, ch)])
      { r with members := Function.update r.members queue joined }
  | .stream queue ch, r => { r with streams := Function.update r.streams queue (r.streams queue ++ [ch]) }

def leaveGroup (addr queue group : String) (r : Registry) : Registry :=
  let left := Function.update (r.members queue) group
    ((r.members queue group).eraseP fun entry => entry.1 = addr)
  { r with members := Function.update r.members queue left }

def leaveQueue (queue : String) (ch : Nat) (r : Registry) : Registry :=
  { r with consumers := Function.update r.consumers queue ((r.consumers queue).erase ch) }

def leaveStream (queue : String) (ch : Nat) (r : Registry) : Registry :=
  { r with streams := Function.update r.streams queue ((r.streams queue).erase ch) }

variable {addr : String} {chan : Chan} {r : Registry} {ch : Nat}

theorem has_join {other : Chan} (h : (r.join addr chan).Has other) :
    r.Has other ∨ other = chan := by
  cases chan with
  | consumer queue ch =>
    cases other with
    | consumer name number =>
      simp only [Has, join, update_apply] at h ⊢
      split at h <;> simp_all
    | member | stream => exact .inl h
  | member queue group ch =>
    cases other with
    | member name inGroup number =>
      simp only [Has, join, update_apply] at h ⊢
      split at h
      · rw [update_apply] at h
        split at h <;> simp_all
      · exact .inl h
    | consumer | stream => exact .inl h
  | stream queue ch =>
    cases other with
    | stream name number =>
      simp only [Has, join, update_apply] at h ⊢
      split at h <;> simp_all
    | consumer | member => exact .inl h

theorem mem_members_join {entry : String × Nat} :
    entry ∈ (r.join addr chan).members queue group ↔
      entry ∈ r.members queue group ∨ entry.1 = addr ∧ chan = .member queue group entry.2 := by
  cases chan with
  | consumer | stream => simp [join]
  | member name inGroup ch =>
    simp only [join, update_apply]
    split
    · rw [update_apply]
      split <;> grind
    · grind

structure Shrinks (r r' : Registry) : Prop where
  consumers : ∀ queue, r'.consumers queue ⊆ r.consumers queue
  members : ∀ queue group, r'.members queue group ⊆ r.members queue group
  streams : ∀ queue, r'.streams queue ⊆ r.streams queue

theorem Shrinks.has {r' : Registry} (h : Shrinks r r') (hhas : r'.Has chan) :
    r.Has chan := by
  cases chan with
  | consumer queue ch => exact h.consumers queue hhas
  | member queue group ch => exact map_subset _ (h.members queue group) hhas
  | stream queue ch => exact h.streams queue hhas

theorem shrinks_refl (r : Registry) : Shrinks r r :=
  ⟨fun _ => List.Subset.refl _, fun _ _ => List.Subset.refl _, fun _ => List.Subset.refl _⟩

theorem shrinks_leaveGroup (addr queue group : String) (r : Registry) :
    Shrinks r (r.leaveGroup addr queue group) where
  consumers _ := List.Subset.refl _
  members name inGroup := by
    simp only [leaveGroup, update_apply]
    split
    · rename_i hname
      rw [update_apply, hname]
      split
      · rename_i hgroup
        rw [hgroup]
        exact eraseP_subset
      · exact List.Subset.refl _
    · exact List.Subset.refl _
  streams _ := List.Subset.refl _

theorem shrinks_leaveQueue (queue : String) (ch : Nat) (r : Registry) :
    Shrinks r (r.leaveQueue queue ch) where
  consumers name := by
    simp only [leaveQueue, update_apply]
    split
    · rename_i hname
      rw [hname]
      exact erase_subset
    · exact List.Subset.refl _
  members _ _ := List.Subset.refl _
  streams _ := List.Subset.refl _

theorem shrinks_leaveStream (queue : String) (ch : Nat) (r : Registry) :
    Shrinks r (r.leaveStream queue ch) where
  consumers _ := List.Subset.refl _
  members _ _ := List.Subset.refl _
  streams name := by
    simp only [leaveStream, update_apply]
    split
    · rename_i hname
      rw [hname]
      exact erase_subset
    · exact List.Subset.refl _

theorem not_has_leaveQueue
    (h : (r.consumers queue).Nodup) : ¬(r.leaveQueue queue ch).Has (.consumer queue ch) := by
  simpa [Has, leaveQueue] using h.not_mem_erase

theorem not_has_leaveStream
    (h : (r.streams queue).Nodup) : ¬(r.leaveStream queue ch).Has (.stream queue ch) := by
  simpa [Has, leaveStream] using h.not_mem_erase

theorem not_has_leaveGroup
    (hdistinct : ((r.members queue group).map Prod.snd).Nodup)
    (hmember : (addr, ch) ∈ r.members queue group)
    (hone : ∀ entry ∈ r.members queue group, entry.1 = addr → entry.2 = ch) :
    ¬(r.leaveGroup addr queue group).Has (.member queue group ch) := by
  simp only [Has, leaveGroup, update_self]
  have ⟨first, before, rest, _, hfirst, hsplit, herase⟩ :=
    exists_of_eraseP hmember (p := fun entry => decide (entry.1 = addr)) (by simp)
  have hch : first.2 = ch := by
    refine hone first ?_ (by simpa using hfirst)
    rw [hsplit]
    simp
  rw [herase]
  rw [hsplit, map_append, map_cons, nodup_middle, hch, nodup_cons] at hdistinct
  simpa using hdistinct.1

end Registry

section Joining
open World
variable {w : World} {name : String} {ch : Nat} {timeout : Duration}

theorem ptr_eq {err : Option Err}
    (h : (if err.isSome then none else some queue) = some name) : name = queue := by
  split at h
  · cases h
  · exact (Option.some.inj h).symm

structure Joins (addr : String) (chan : Chan) (w w' : World) : Prop where
  registers : Registers (Registry.join addr chan) w w'
  fresh : w.Wired → ¬w.registry.Has chan

theorem Joins.after {addr : String} {chan : Chan} (h : Registers id w w')
    (hjoins : Joins addr chan w' w'') : Joins addr chan w w'' where
  registers := h.then hjoins.registers
  fresh hw := by
    have hfresh := hjoins.fresh (h.wired hw)
    rwa [h.registry] at hfresh

theorem dequeue_joins (addr : String)
    (hq : w.queue? name = some q) (h : q.dequeue timeout pass = .ok (q', ch)) :
    Joins addr (.consumer name ch) w (w.setQueue q') := by
  have ⟨hch, hname, hchannels, hrosters, hwired⟩ := Queue.dequeue_joins h
  refine ⟨(registers_setQueue q' w.disk hq hname hwired).congr ?_, fun hw hhas => ?_⟩
  · simp only [Registry.join, hchannels, hrosters, ← registry_consumers hq, ← registry_members hq,
      update_eq_self, hch]
  · have hmem : ch ∈ q.channels := registry_consumers hq ▸ hhas
    have hq' : q.Wired := queueAt_of_some hq ▸ hw.queues name
    exact absurd (hq'.numbered ch hmem) (by omega)

theorem registers_insertGroup (hq : w.queue? name = some q) (hg : q.groups.find? group = some g)
    (hname : g'.name = g.name)
    (hwired : q.Wired → ({ q with groups := q.groups.insert g' } : Queue).Wired) :
    Registers (fun r => { r with
      members := Function.update r.members name
        (Function.update (r.members name) group g'.roster) }) w
      (w.setQueue { q with groups := q.groups.insert g' }) := by
  refine (registers_setQueue { q with groups := q.groups.insert g' } w.disk hq rfl hwired).congr ?_
  have hchannels : ({ q with groups := q.groups.insert g' } : Queue).channels = q.channels := rfl
  have hmembers : (fun other => ({ q with groups := q.groups.insert g' } : Queue).rosterOf other) =
      Function.update (w.registry.members name) group g'.roster := by
    funext other
    rw [rosterOf_insert, hname, (KeyedMap.find?_eq_some_iff.mp hg).2, update_apply, registry_members hq]
  simp only [hchannels, hmembers, ← registry_consumers hq, update_eq_self]

theorem registry_roster (hq : w.queue? name = some q) (hg : q.groups.find? group = some g) :
    w.registry.members name group = g.roster := by
  rw [registry_members hq]
  exact (rosterOf_of_find? hg).1

theorem addMember_joins {now : Time}
    (hq : w.queue? name = some q)
    (hg : q.groups.find? group = some g)
    (h : g.addMember memberID timeout now pass = .ok (g', ch)) :
    Joins memberID (.member name group ch) w
      (w.setQueue { q with groups := q.groups.insert g' }) := by
  obtain ⟨hch, hname, _, hroster⟩ := ConsumerGroup.addMember_roster h
  have hjoins := Queue.addMember_joins hg h
  refine ⟨(registers_insertGroup hq hg hname fun hq => (hjoins hq).2).congr ?_, fun hw hhas => ?_⟩
  · simp only [Registry.join, registry_roster hq hg, hroster, hch]
  · change ch ∈ (w.registry.members name group).map Prod.snd at hhas
    rw [registry_roster hq hg] at hhas
    obtain ⟨entry, hentry, heq⟩ := mem_map.mp hhas
    exact (hjoins (queueAt_of_some hq ▸ hw.queues name)).1 entry hentry heq

theorem handleConsume_registers (queue : String) (visibilityTimeout : UInt32)
    (group memberID : String) (now : Time) (pass : Pass) :
    (handleConsume queue visibilityTimeout group memberID now pass).Ensures w fun result w' =>
      ∃ ch, result = some ch ∧ Joins memberID (.consumed queue group ch) w w' := by
  have hcreated := createQueue_registers queue w
  simp only [handleConsume, ensures_bind, ensures_getOrCreateQueue]
  split
  · rename_i hgroup
    rw [ensures_lockedPure]
    intro name q q' result hptr hq hok
    obtain rfl := ptr_eq hptr
    simp only [Go.bind_eq_ok, Go.pure_eq] at hok
    obtain ⟨⟨_, ch⟩, hdequeue, hret⟩ := hok
    cases hret
    refine ⟨ch, rfl, .after hcreated ?_⟩
    rw [Chan.consumed, if_pos hgroup]
    exact dequeue_joins memberID hq hdequeue
  · rename_i hgroup
    simp only [ensures_bind]
    rw [ensures_lockedPure]
    intro name q q' _ hptr hq hok
    obtain rfl := ptr_eq hptr
    cases hok
    have hgrouped := registers_undisturbed (createQueue name w).2.disk hq
      (q.getOrCreateGroup_undisturbed group)
    have hq' := queue?_put _ hq (q.getOrCreateGroup_undisturbed group).name
    rw [lockedGroup, ensures_locked]
    intro other q0 q'' disk result hptr' hq0 hok
    obtain rfl := ptr_eq hptr'
    obtain rfl := Option.some.inj (hq'.symm.trans hq0)
    obtain ⟨g, hg⟩ := Option.isSome_iff_exists.mp (q.isSome_getOrCreateGroup group)
    simp only [Queue.inGroup, hg, Go.bind_eq_ok, Go.pure_eq] at hok
    obtain ⟨_, ⟨⟨g', ch⟩, hadd, hmember⟩, hret⟩ := hok
    cases hmember
    cases hret
    refine ⟨ch, rfl, .after (hcreated.then hgrouped) ?_⟩
    rw [Chan.consumed, if_neg hgroup]
    exact addMember_joins hq' hg hadd

/-! #### Streams -/

theorem registers_setStream (sq' : StreamQueue) (disk : Disk)
    (hsq : w.stream? name = some sq) (hname : sq'.name = sq.name)
    (hnumbered : sq.Numbered → sq'.Numbered) :
    Registers (fun r => { r with streams := Function.update r.streams name sq'.channels }) w
      { w.setStream sq' with disk := disk } := by
  have hat (other : String) : ({ w.setStream sq' with disk := disk } : World).streamAt other =
      if other = name then sq' else w.streamAt other := streamAt_setStream hsq hname other
  refine ⟨fun h => ⟨h.queues, fun other => ?_⟩, ?_⟩
  · rw [hat]
    split
    · exact hnumbered (streamAt_of_some hsq ▸ h.streams name)
    · exact h.streams other
  · simp only [World.registry, hat]
    congr 1
    funext other
    rw [update_apply]
    split <;> rfl

theorem registry_streams (hsq : w.stream? name = some sq) :
    w.registry.streams name = sq.channels :=
  congrArg StreamQueue.channels (streamAt_of_some hsq)

theorem createStreamQueue_registers (name : String) (w : World) :
    Registers id w (createStreamQueue name w).2 := by
  unfold createStreamQueue
  split
  · exact registers_refl w
  · rename_i hnew
    generalize (if w.disk.present then _ else _ : Except Err UInt64 × Disk) = read
    obtain ⟨seq, disk⟩ := read
    simp only
    split
    · exact registers_of_eq (fun _ => rfl) fun _ => ⟨rfl, rfl⟩
    · refine registers_of_eq (fun _ => rfl) fun other => ?_
      simp only [streamAt, stream?, setStream, KeyedMap.find?_insert]
      split
      · rename_i hother
        have hname : other = name := hother
        rw [stream?] at hnew
        rw [hname, hnew]
        exact ⟨rfl, rfl⟩
      · exact ⟨rfl, rfl⟩

theorem registers_consulted (h : Consulted w w') : Registers id w w' :=
  registers_of_eq (fun name => by rw [queueAt, queue?, h.queues, queueAt, queue?])
    fun name => by rw [streamAt, h.streams, streamAt]; exact ⟨rfl, rfl⟩

def Registry.dropped (queue : String) (streamConsumer : Option (String × Nat)) (r : Registry) :
    Registry :=
  match streamConsumer with
  | none => r
  | some (stream, ch) => if stream = queue then r.leaveStream queue ch else r

theorem removeConsumer_registers (ch : Nat) (hsq : w.stream? name = some sq) :
    Registers (Registry.leaveStream name ch) w (w.setStream (sq.removeConsumer ch)) := by
  refine (registers_setStream (sq.removeConsumer ch) w.disk hsq rfl fun h => h.removeConsumer ch).congr ?_
  simp only [Registry.leaveStream, StreamQueue.removeConsumer_channels, registry_streams hsq]

theorem dropConsumer_registers (queue : String) (streamConsumer : Option (String × Nat)) :
    (Server.dropConsumer queue streamConsumer).Ensures w fun _ w' =>
      Registers (Registry.dropped queue streamConsumer) w w' := by
  match streamConsumer with
  | none => exact registers_refl w
  | some (stream, ch) =>
    rw [Server.dropConsumer, ensures_lockedStream]
    intro name sq hptr hsq
    obtain rfl := Option.some.inj hptr
    by_cases hstream : stream = queue
    · have hdropped : Registry.dropped queue (some (stream, ch)) = Registry.leaveStream queue ch := by
        funext r
        exact if_pos hstream
      rw [hdropped, if_pos hstream]
      exact removeConsumer_registers ch hsq
    · have hdropped : Registry.dropped queue (some (stream, ch)) = id := by
        funext r
        exact if_neg hstream
      rw [hdropped, if_neg hstream]
      refine (registers_setStream sq w.disk hsq rfl id).congr ?_
      simp only [← registry_streams hsq, update_eq_self]
      rfl

theorem subscribe_joins (addr group : String) (offset : UInt64) (hsq : w.stream? name = some sq) :
    Joins addr (.stream name (sq.subscribe group offset).2) w
      (w.setStream (sq.subscribe group offset).1) where
  registers := by
    refine (registers_setStream (sq.subscribe group offset).1 w.disk hsq rfl
      fun h => h.subscribe group offset).congr ?_
    simp only [Registry.join, StreamQueue.subscribe_channels, registry_streams hsq]
    rfl
  fresh hw hhas := by
    have hmem : sq.made ∈ sq.channels := registry_streams hsq ▸ hhas
    have hnumbered : sq.Numbered := streamAt_of_some hsq ▸ hw.streams name
    exact Nat.lt_irrefl _ (hnumbered.numbered _ hmem)

def sought (state : ConnState) (queue group : String) (ch : Nat) : ConnState :=
  { state with
    queueName := queue
    streamMode := true
    consumerGroup := group
    streamConsumer := some (queue, ch)
    msgCh := some (.stream queue ch) }

theorem handleSeek_registers (req : SeekRequest) (state : ConnState) :
    (Server.handleSeek req state).Ensures w fun result w' =>
      (result.1 = state ∧ (∃ err, result.2 = some (.error 3 err)) ∧ Registers id w w') ∨
      ∃ group ch offset next, result = (sought state req.queue group ch, some (.seekAck offset)) ∧
        Registers (Registry.dropped req.queue state.streamConsumer) w next ∧
        Joins state.clientAddr (.stream req.queue ch) next w' := by
  have hcreated := createStreamQueue_registers req.queue w
  simp only [Server.handleSeek, ensures_bind, ensures_getOrCreateStreamQueue]
  split
  · trivial
  simp only [Server.seekStream, ensures_bind]
  refine (seekOffset_consults _ _).mono fun result found hconsulted => ?_
  have hfound := hcreated.then (registers_consulted hconsulted)
  split
  · exact .inl ⟨rfl, ⟨_, rfl⟩, hfound⟩
  simp only [ensures_bind]
  refine (dropConsumer_registers _ _).mono fun _ next hnext => ?_
  rw [ensures_lockedStream]
  intro name sq hptr hsq
  obtain rfl := Option.some.inj hptr
  exact .inr ⟨_, _, _, next, rfl, hfound.then hnext, subscribe_joins _ _ _ hsq⟩

/-! #### Unsubscribing -/

/-- What `HandleUnsubscribe` takes out when it finds something. -/
def Registry.unsubscribed (queue group memberID : String) (ch : Option Nat) (r : Registry) : Registry :=
  if group = "" then
    match ch with
    | none => r
    | some ch => r.leaveQueue queue ch
  else r.leaveGroup memberID queue group

theorem removeConsumer_unregisters (ch : Nat) (hq : w.queue? name = some q) :
    Registers (Registry.leaveQueue name ch) w (w.setQueue (q.removeConsumer ch)) := by
  have ⟨hname, hchannels, hrosters, hwired⟩ := removeConsumer_leaves ch q
  refine (registers_setQueue (q.removeConsumer ch) w.disk hq hname hwired).congr ?_
  simp only [Registry.leaveQueue, hchannels, hrosters, ← registry_consumers hq,
    ← registry_members hq, update_eq_self]

theorem removeMember_unregisters {clock : String → Time}
    {order : List String} {empty : Bool}
    (hq : w.queue? name = some q) (hg : q.groups.find? group = some g)
    (h : g.removeMember memberID clock order pass = .ok (g', empty)) :
    Registers (Registry.leaveGroup memberID name group) w
      (w.setQueue { q with groups := q.groups.insert g' }) := by
  obtain ⟨hname, _, hroster, _⟩ := ConsumerGroup.removeMember_roster h
  refine (registers_insertGroup hq hg hname (removeMember_leaves hg h)).congr ?_
  simp only [Registry.leaveGroup, registry_roster hq hg, hroster]

theorem removeGroup_registers (hq : w.queue? name = some q)
    (hempty : q.rosterOf group = []) : Registers id w (w.setQueue (q.removeGroup group)) := by
  have ⟨hrosters, hwired⟩ := removeGroup_leaves hempty
  refine (registers_setQueue (q.removeGroup group) w.disk hq rfl hwired).congr ?_
  have hchannels : (q.removeGroup group).channels = q.channels := rfl
  simp only [hchannels, hrosters, ← registry_consumers hq, ← registry_members hq,
    update_eq_self]
  rfl

/-- The answer to an unsubscribe: the group is there, or the queue is and the
connection has a channel. -/
def World.finds (queue group : String) (subscribed : Bool) (w : World) : Bool :=
  if group = "" then (w.queue? queue).isSome && subscribed
  else ((w.queue? queue).bind fun q => q.groups.find? group).isSome

theorem unsubscribed_group {ch : Option Nat} (hgroup : group ≠ "") :
    Registry.unsubscribed queue group memberID ch = Registry.leaveGroup memberID queue group :=
  funext fun _ => if_neg hgroup

theorem unsubscribed_queue (hgroup : group = "") :
    Registry.unsubscribed queue group memberID (some ch) = Registry.leaveQueue queue ch :=
  funext fun _ => if_pos hgroup

theorem leaveGroup_registers {q : Queue} (memberID : String) (ch : Option Nat)
    (clock : String → Time) (order : List String) (pass : Pass) (hgroup : group ≠ "")
    (hq : w.queue? queue = some q) :
    (handleUnsubscribe queue group memberID ch clock order pass).Ensures w fun found w' =>
      found = w.finds queue group ch.isSome ∧
      Registers (if found then Registry.unsubscribed queue group memberID ch else id) w w' := by
  refine (ensures_found hq).mpr ?_
  rw [if_pos hgroup, ensures_bind]
  refine ensures_locked_of hq fun q' disk result hok => ?_
  rcases inGroup_cases hok with ⟨hg, rfl, rfl, rfl⟩ | ⟨g, g', empty, hg, hleave, rfl, rfl⟩
  · refine ⟨?_, registers_undisturbed _ hq (undisturbed_refl q')⟩
    simp [World.finds, hgroup, hq, hg]
  · simp only [Go.bind_eq_ok, Go.pure_eq] at hleave
    have ⟨⟨left, _⟩, hremove, hret⟩ := hleave
    cases hret
    have hleaves := removeMember_unregisters hq hg hremove
    obtain ⟨hname, _, _, hempty⟩ := ConsumerGroup.removeMember_roster hremove
    have hfinds : true = w.finds queue group ch.isSome := by
      simp [World.finds, hgroup, hq, hg]
    rw [unsubscribed_group hgroup]
    simp only
    split
    · rename_i hlast
      have hself := queue?_put { q with groups := q.groups.insert left } hq rfl
      refine ensures_bind.mpr (ensures_lockedPure_of hself fun q'' _ hok' => ?_)
      cases hok'
      refine ⟨hfinds, hleaves.followed (removeGroup_registers hself ?_)⟩
      rw [rosterOf_insert, hname, (KeyedMap.find?_eq_some_iff.mp hg).2, if_pos rfl]
      exact isEmpty_iff.mp (hempty ▸ hlast)
    · exact ⟨hfinds, hleaves⟩

theorem handleUnsubscribe_registers (queue group memberID : String) (ch : Option Nat)
    (clock : String → Time) (order : List String) (pass : Pass) :
    (handleUnsubscribe queue group memberID ch clock order pass).Ensures w fun found w' =>
      found = w.finds queue group ch.isSome ∧
      Registers (if found then Registry.unsubscribed queue group memberID ch else id) w w' := by
  refine ensures_lookup (fun hnone => ⟨by simp [World.finds, hnone], registers_refl w⟩) fun q hq => ?_
  by_cases hgroup : group = ""
  · rw [if_neg (not_not_intro hgroup)]
    cases ch with
    | none => exact ⟨by simp [World.finds, hgroup], registers_refl w⟩
    | some ch =>
      refine ensures_bind.mpr (ensures_lockedPure_of hq fun q' _ hok => ?_)
      cases hok
      rw [unsubscribed_queue hgroup]
      exact ⟨by simp [World.finds, hgroup, hq], removeConsumer_unregisters ch hq⟩
  · exact (ensures_found hq).mp (leaveGroup_registers memberID ch clock order pass hgroup hq)

theorem unsubscribe_registers (queue group : String) (env : LeaveEnv) (state : ConnState) :
    (Server.unsubscribe queue group env state).Ensures w fun found w' =>
      found = w.finds queue group state.msgCh.isSome ∧
      Registers (if found then Registry.unsubscribed queue group state.clientAddr
        (state.msgCh.bind (Chan.inQueue queue)) else id) w w' := by
  unfold Server.unsubscribe
  cases hch : state.msgCh with
  | none => exact handleUnsubscribe_registers _ _ _ _ _ _ _
  | some chan =>
    simp only [Option.bind_some, Option.isSome_some]
    cases hqueue : chan.inQueue queue with
    | some ch => exact handleUnsubscribe_registers _ _ _ _ _ _ _
    | none =>
      by_cases hgroup : group = ""
      · simp only [if_pos hgroup, ensures_getQueue]
        refine ⟨by simp [World.finds, hgroup], ?_⟩
        split
        · have heffect : Registry.unsubscribed queue group state.clientAddr none = id := by
            funext r
            exact if_pos hgroup
          rw [heffect]
          exact registers_refl w
        · exact registers_refl w
      · simp only [if_neg hgroup]
        refine (handleUnsubscribe_registers _ _ _ _ _ _ _).mono fun found w' h => ⟨?_, h.2⟩
        rw [h.1, World.finds, World.finds, if_neg hgroup, if_neg hgroup]

/-! #### Calls -/

theorem saveAndEnqueue_registers (ptr : Option String) (msg : Message) (env : Env) :
    (saveAndEnqueue ptr msg env).Ensures w fun _ w' => Registers id w w' := by
  simp only [saveAndEnqueue, saveMessage, deleteMessage, enqueue, ensures_bind, ensures_write]
  split
  · exact write_registers _
  simp only [ensures_bind]
  refine (lockedPure_registers enqueue_undisturbed).mono fun err next hnext => ?_
  split
  · exact (write_registers _).then hnext
  simp only [ensures_bind, ensures_write]
  split <;> exact ((write_registers _).then hnext).then (write_registers _)

theorem handlePublish_registers (req : PublishRequest) (env : PublishEnv) :
    (handlePublish req env).Ensures w fun _ w' => Registers id w w' := by
  have hchecked : Registers id w (w.keyed req env) := by
    refine registers_of_eq (fun name => World.queueAt_keyed w name) fun name => ?_
    rw [streamAt, World.stream?_keyed, streamAt]
    exact ⟨rfl, rfl⟩
  have hcreated := hchecked.then (createQueue_registers req.queue _)
  refine ensures_handlePublish env (fun _ _ => registers_refl w) (fun _ _ => hcreated) fun _ _ => ?_
  exact (saveAndEnqueue_registers _ _ _).mono fun _ _ hsaved => hcreated.then hsaved

theorem callWith_registers (manager : CallManager) (req : CallRequest) (env : CallEnv)
    (state : ConnState) :
    (Server.callWith manager req env state).Ensures w fun result w' =>
      result.1 = { state with callManager := some manager } ∧ Registers id w w' := by
  simp only [Server.callWith, ensures_bind]
  refine (handlePublish_registers _ _).mono fun result w' hpublish => ?_
  split
  · exact ⟨rfl, hpublish⟩
  · split <;> exact ⟨rfl, hpublish⟩

theorem newCallManager_registers (connID : String) (pass : Pass) :
    (Server.newCallManager connID pass).Ensures w fun manager w' =>
      Joins connID (.consumer manager.replyQ manager.consumer) w w' := by
  simp only [Server.newCallManager, ensures_bind, ensures_getOrCreateQueue]
  have hcreated := createQueue_registers (Server.replyQueuePrefix ++ connID) w
  refine (lockedPure_registers ?_).mono fun _ next hsized => ?_
  · intro q q' result hok
    cases hok
    exact ⟨rfl, rfl, rfl, fun _ => rfl, fun _ => rfl, id⟩
  · rw [ensures_lockedPure]
    intro name q q' ch hptr hq hok
    obtain rfl := ptr_eq hptr
    exact .after (hcreated.then hsized) (dequeue_joins connID hq hok)

end Joining

section Frames
open World
variable {w : World}

theorem handleFrame_wired (frame : Server.Frame) (state : ConnState) :
    (Server.handleFrame frame state).Ensures w fun _ w' => w.Wired → w'.Wired := by
  cases frame with
  | consume req now pass =>
    simp only [Server.handleFrame, Server.handleConsume, ensures_bind]
    refine (handleConsume_registers _ _ _ _ _ _).mono ?_
    rintro _ w' ⟨_, _, hjoins⟩
    exact hjoins.registers.wired
  | seek req =>
    refine (handleSeek_registers req state).mono fun result w' hresult => ?_
    rcases hresult with ⟨_, _, hregisters⟩ | ⟨_, _, _, next, _, hregisters, hjoins⟩
    · exact hregisters.wired
    · exact hjoins.registers.wired ∘ hregisters.wired
  | unsubscribe queue group env =>
    simp only [Server.handleFrame, Server.handleUnsubscribe, ensures_bind]
    refine (unsubscribe_registers _ _ _ _).mono fun found w' hleft => ?_
    split <;> exact hleft.2.wired
  | ack messageID pass =>
    simp only [Server.handleFrame, Server.handleAck]
    split
    · exact id
    · simp only [ensures_bind]
      exact (handleAck_registers _ _ _ _).mono fun _ w' hregisters => hregisters.wired
  | nack messageID requeue env =>
    simp only [Server.handleFrame, Server.handleNack, ensures_bind]
    exact (handleNack_registers _ _ _ _ _).mono fun _ w' hregisters => hregisters.wired
  | call req env =>
    simp only [Server.handleFrame, Server.handleCall]
    split
    · exact (callWith_registers _ _ _ _).mono fun _ w' hcalled => hcalled.2.wired
    · rw [ensures_bind]
      refine (newCallManager_registers _ _).mono fun manager next hjoins => ?_
      exact (callWith_registers _ _ _ _).mono fun _ w' hcalled =>
        hcalled.2.wired ∘ hjoins.registers.wired

theorem wired_opened (memoryLimit : UInt64) (faults : Nat → Option String) :
    (World.opened memoryLimit faults).Wired where
  queues name := wired_new name
  streams _ := ⟨nodup_nil, fun _ hch => absurd hch not_mem_nil⟩

end Frames

end QwerQ
