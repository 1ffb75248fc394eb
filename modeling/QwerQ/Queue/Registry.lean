import QwerQ.Queue.Table
import QwerQ.Stream

/-! Who is registered: the consumers of a queue, the members of its groups and the
consumers of a stream, by the channels they were given. Deliveries, enqueues and
settlements leave all registrations as they are. -/
namespace QwerQ
open List KeyedMap

namespace ConsumerGroup
variable {g g' : ConsumerGroup} {memberID : String} {msg : Message} {timeout : Duration} {ch : Nat}
  {result : Bool × Option Err} {clock : String → Time} {requeue : Bool} {now : Time} {pass : Pass}

def roster (g : ConsumerGroup) : List (String × Nat) := g.members.map fun m => (m.id, m.ch)

structure SameRoster (g g' : ConsumerGroup) : Prop where
  name : g'.name = g.name
  made : g'.made = g.made
  roster : g'.roster = g.roster

theorem sameRoster_refl (g : ConsumerGroup) : SameRoster g g := ⟨rfl, rfl, rfl⟩

theorem SameRoster.trans {g'' : ConsumerGroup} (h : SameRoster g g') (hnext : SameRoster g' g'') :
    SameRoster g g'' :=
  ⟨hnext.name.trans h.name, hnext.made.trans h.made, hnext.roster.trans h.roster⟩

theorem accept_sameRoster {idx : Nat} {m : GroupMember} {s s' : Scan}
    (hm : s.group.members[idx]? = some m) (h : accept now idx m s = .ok s') :
    SameRoster s.group s'.group := by
  obtain ⟨_, _, _, rfl⟩ := accept_ok h
  refine ⟨rfl, rfl, ?_⟩
  have ⟨hlt, hget⟩ := List.getElem?_eq_some_iff.mp hm
  simp only [roster, Scan.take, handOver, map_set]
  refine ext_getElem (by simp) fun n hn _ => ?_
  rw [getElem_set]
  split
  · rename_i heq
    subst heq
    simp [hget]
  · rfl

theorem tryDeliver_sameRoster (h : g.tryDeliver pass = .ok g') : SameRoster g g' :=
  tryDeliver_invariant (fun _ _ => trivial)
    (fun hsame _ hm htaken => ⟨hsame.trans (accept_sameRoster hm htaken), trivial⟩)
    (sameRoster_refl g) h

theorem enqueue_sameRoster (h : g.enqueue msg pass = .ok g') :
    SameRoster g g' := by
  have hdelivered := tryDeliver_sameRoster h
  exact ⟨hdelivered.name, hdelivered.made, hdelivered.roster⟩

theorem ackWithHook_sameRoster {id : String} {hook : Hook σ} {s s' : σ}
    (h : g.ackWithHook id hook pass s = .ok ((g', s'), result)) :
    SameRoster g g' := by
  cases ackWithHook_cases h with
  | missing | refused => exact sameRoster_refl _
  | settled _ _ hpass =>
    have hdelivered := tryDeliver_sameRoster hpass
    exact ⟨hdelivered.name, hdelivered.made, hdelivered.roster⟩

theorem nackWithHooks_sameRoster {id : String} {maxRetries : UInt32}
    {policy : FailurePolicy} {hook : Hook σ} {s s' : σ}
    {result : NackResult × Option Err}
    (h : g.nackWithHooks id requeue maxRetries policy hook now pass s = .ok ((g', s'), result)) :
    SameRoster g g' := by
  cases nackWithHooks_cases h with
  | missing | keptFromDrop | keptFromRequeue => exact sameRoster_refl _
  | toDLQ | dropped => exact ⟨rfl, rfl, rfl⟩
  | requeued _ _ _ hpass =>
    have hdelivered := tryDeliver_sameRoster hpass
    exact ⟨hdelivered.name, hdelivered.made, hdelivered.roster⟩

theorem addMember_roster
    (h : g.addMember memberID timeout now pass = .ok (g', ch)) :
    ch = g.made ∧ g'.name = g.name ∧ g'.made = g.made + 1 ∧
      g'.roster = g.roster ++ [(memberID, g.made)] := by
  simp only [addMember, Go.bind_eq_ok, Go.pure_eq] at h
  obtain ⟨_, hpass, hret⟩ := h
  cases hret
  have hdelivered := tryDeliver_sameRoster hpass
  refine ⟨rfl, hdelivered.name, hdelivered.made, hdelivered.roster.trans ?_⟩
  simp [roster]

theorem requeueForMemberLocked_sameRoster (memberID : String) (clock : String → Time)
    (order : List String) (g : ConsumerGroup) :
    SameRoster g (g.requeueForMemberLocked memberID clock order) := by
  refine List.foldlRecOn (motive := fun g' => SameRoster g g') _ _ (sameRoster_refl g) ?_
  intro g' h entry _
  split
  · exact ⟨h.name, h.made, h.roster⟩
  · exact h

theorem removeMember_roster {order : List String}
    {empty : Bool} (h : g.removeMember memberID clock order pass = .ok (g', empty)) :
    g'.name = g.name ∧ g'.made = g.made ∧
      g'.roster = g.roster.eraseP (fun entry => entry.1 = memberID) ∧
      empty = g'.roster.isEmpty := by
  have herase : g.roster.eraseP (fun entry => entry.1 = memberID) =
      (g.members.eraseP fun m => m.id = memberID).map fun m => (m.id, m.ch) := by
    rw [roster, eraseP_map]
    rfl
  have hempty (g : ConsumerGroup) : g.members.isEmpty = g.roster.isEmpty := by
    rw [roster, isEmpty_map]
  unfold removeMember at h
  rw [herase, eraseP_eq_eraseIdx]
  split at h
  · rename_i hfind
    cases h
    rw [hfind]
    exact ⟨rfl, rfl, rfl, hempty _⟩
  · rename_i i hfind
    rw [hfind]
    simp only [requeueForMember, Go.bind_eq_ok, Go.pure_eq] at h
    obtain ⟨_, hpass, hret⟩ := h
    cases hret
    have hsame := (requeueForMemberLocked_sameRoster memberID clock order _).trans
      (tryDeliver_sameRoster hpass)
    exact ⟨hsame.name, hsame.made, hsame.roster, hempty _⟩

end ConsumerGroup

namespace Queue
variable {q q' : Queue} {msg : Message} {env : Env} {pass : Pass} {group memberID : String}
  {result : Bool × Option Err} {now : Time} {requeue : Bool} {ch : Nat} {timeout : Duration}
  {clock : String → Time}

def channels (q : Queue) : List Nat := q.consumers.map Consumer.ch

def rosterOf (group : String) (q : Queue) : List (String × Nat) :=
  ((q.groups.find? group).map ConsumerGroup.roster).getD []

def madeIn (group : String) (q : Queue) : Nat := ((q.groups.find? group).map ConsumerGroup.made).getD 0

structure Undisturbed (q q' : Queue) : Prop where
  name : q'.name = q.name
  made : q'.made = q.made
  channels : q'.channels = q.channels
  rosters : ∀ group, q'.rosterOf group = q.rosterOf group
  groupsMade : ∀ group, q'.madeIn group = q.madeIn group
  routed : q.Routed → q'.Routed

theorem undisturbed_refl (q : Queue) : Undisturbed q q :=
  ⟨rfl, rfl, rfl, fun _ => rfl, fun _ => rfl, id⟩

theorem Undisturbed.trans {q'' : Queue} (h : Undisturbed q q') (hnext : Undisturbed q' q'') :
    Undisturbed q q'' where
  name := hnext.name.trans h.name
  made := hnext.made.trans h.made
  channels := hnext.channels.trans h.channels
  rosters group := (hnext.rosters group).trans (h.rosters group)
  groupsMade group := (hnext.groupsMade group).trans (h.groupsMade group)
  routed := hnext.routed ∘ h.routed

theorem undisturbed_of_ledger (q : Queue) (messages : List Message) (inFlight : KeyedMap Message.id) :
    Undisturbed q { q with messages := messages, inFlight := inFlight } :=
  ⟨rfl, rfl, rfl, fun _ => rfl, fun _ => rfl, id⟩

theorem tryDeliver_undisturbed (h : q.tryDeliver pass = .ok q') : Undisturbed q q' := by
  have ⟨_, run⟩ := tryDeliver_delivers h
  refine ⟨by rw [run.same], by rw [run.same], run.channels, fun group => ?_, fun group => ?_,
    run.routed⟩
  · rw [rosterOf, run.same, rosterOf]
  · rw [madeIn, run.same, madeIn]

theorem rosterOf_insert (g : ConsumerGroup) (group : String) (q : Queue) :
    ({ q with groups := q.groups.insert g } : Queue).rosterOf group =
      if group = g.name then g.roster else q.rosterOf group := by
  rw [rosterOf, find?_insert]
  split <;> rfl

theorem madeIn_insert (g : ConsumerGroup) (group : String) (q : Queue) :
    ({ q with groups := q.groups.insert g } : Queue).madeIn group =
      if group = g.name then g.made else q.madeIn group := by
  rw [madeIn, find?_insert]
  split <;> rfl

theorem undisturbed_insert (hg : q.groups.find? g.name = some g)
    (h : g.SameRoster g') : Undisturbed q { q with groups := q.groups.insert g' } where
  name := rfl
  made := rfl
  channels := rfl
  rosters group := by
    rw [rosterOf_insert]
    split
    · rename_i hname
      rw [hname, h.name, rosterOf, hg, h.roster]
      rfl
    · rfl
  groupsMade group := by
    rw [madeIn_insert]
    split
    · rename_i hname
      rw [hname, h.name, madeIn, hg, h.made]
      rfl
    · rfl
  routed := id

theorem forGroups_undisturbed {method : ConsumerGroup → Go ConsumerGroup}
    (hmethod : ∀ {g g'}, method g = .ok g' → g.SameRoster g') (h : q.forGroups method = .ok q') :
    Undisturbed q q' := by
  have hvisits := forGroups_visits (fun hok => (hmethod hok).name) h
  have hsame := forGroups_same h
  refine ⟨by rw [hsame], by rw [hsame], by rw [hsame]; rfl, fun group => ?_, fun group => ?_, ?_⟩
  · rcases hvisits group with ⟨hnone, hstill⟩ | ⟨g, g', hfind, hok, hfound⟩
    · rw [rosterOf, rosterOf, hnone, hstill]
    · rw [rosterOf, rosterOf, hfind, hfound, Option.map_some, Option.map_some, (hmethod hok).roster]
  · rcases hvisits group with ⟨hnone, hstill⟩ | ⟨g, g', hfind, hok, hfound⟩
    · rw [madeIn, madeIn, hnone, hstill]
    · rw [madeIn, madeIn, hfind, hfound, Option.map_some, Option.map_some, (hmethod hok).made]
  · rw [hsame]
    exact id

theorem enqueueDirect_undisturbed (h : q.enqueueDirect msg env = .ok q') :
    Undisturbed q q' := by
  simp only [enqueueDirect, Go.bind_eq_ok] at h
  have ⟨delivered, hpass, hfan⟩ := h
  refine ((undisturbed_of_ledger q _ q.inFlight).trans (tryDeliver_undisturbed hpass)).trans ?_
  exact forGroups_undisturbed ConsumerGroup.enqueue_sameRoster hfan

theorem enqueue_undisturbed {err : Option Err}
    (h : q.enqueue msg env = .ok (q', err)) : Undisturbed q q' := by
  rcases enqueue_cases h with ⟨_, rfl, _⟩ | ⟨_, _, hdirect⟩
  · exact undisturbed_refl _
  · exact enqueueDirect_undisturbed hdirect

theorem ackWithHook_undisturbed {id : String} {hook : Hook σ} {s s' : σ}
    (h : q.ackWithHook id hook pass s = .ok ((q', s'), result)) :
    Undisturbed q q' := by
  cases ackWithHook_cases h with
  | missing | refused => exact undisturbed_refl _
  | settled _ _ hpass =>
    exact (undisturbed_of_ledger q q.messages _).trans (tryDeliver_undisturbed hpass)

theorem nackWithHooks_undisturbed {id : String} {dropHook requeueHook : Hook σ}
    {s s' : σ} {result : NackResult × Option Err}
    (h : q.nackWithHooks id requeue dropHook requeueHook now pass s = .ok ((q', s'), result)) :
    Undisturbed q q' := by
  cases nackWithHooks_cases h with
  | missing | keptFromDrop | keptFromRequeue => exact undisturbed_refl _
  | toDLQ | dropped => exact undisturbed_of_ledger q q.messages _
  | requeued _ _ _ hpass => exact (undisturbed_of_ledger q _ _).trans (tryDeliver_undisturbed hpass)

/-- Channels are numbered in turn, in the queue and in each group, and ordering keys
are assigned to registered consumers. -/
structure Wired (q : Queue) : Prop where
  routed : q.Routed
  distinct : q.channels.Nodup
  numbered : ∀ ch ∈ q.channels, ch < q.made
  groupsDistinct : ∀ group, ((q.rosterOf group).map Prod.snd).Nodup
  groupsNumbered : ∀ group, ∀ entry ∈ q.rosterOf group, entry.2 < q.madeIn group

theorem wired_new (name : String) : (new name).Wired where
  routed _ h := absurd h not_mem_nil
  distinct := nodup_nil
  numbered _ h := absurd h not_mem_nil
  groupsDistinct _ := nodup_nil
  groupsNumbered _ _ h := absurd h not_mem_nil

theorem Undisturbed.wired (h : Undisturbed q q') (hq : q.Wired) : q'.Wired where
  routed := h.routed hq.routed
  distinct := h.channels ▸ hq.distinct
  numbered := by
    rw [h.channels, h.made]
    exact hq.numbered
  groupsDistinct group := by
    rw [h.rosters]
    exact hq.groupsDistinct group
  groupsNumbered group := by
    rw [h.rosters, h.groupsMade]
    exact hq.groupsNumbered group

/-! #### Joining and leaving -/

theorem nodup_snoc_made {channels : List Nat} {made : Nat} (hnodup : channels.Nodup)
    (hlt : ∀ ch ∈ channels, ch < made) :
    (channels ++ [made]).Nodup ∧ ∀ ch ∈ channels ++ [made], ch < made + 1 := by
  constructor
  · refine List.Nodup.append hnodup (nodup_singleton _) ?_
    intro ch hch hmade
    rw [mem_singleton] at hmade
    exact absurd (hlt ch hch) (by omega)
  · intro ch hch
    rcases mem_append.mp hch with hold | hnew
    · exact Nat.lt_succ_of_lt (hlt ch hold)
    · rw [mem_singleton] at hnew
      omega

theorem dequeue_joins (h : q.dequeue timeout pass = .ok (q', ch)) :
    ch = q.made ∧ q'.name = q.name ∧ q'.channels = q.channels ++ [q.made] ∧
      (∀ group, q'.rosterOf group = q.rosterOf group) ∧ (q.Wired → q'.Wired) := by
  simp only [dequeue, Go.bind_eq_ok, Go.pure_eq] at h
  have ⟨_, hpass, hret⟩ := h
  cases hret
  have hsame := tryDeliver_undisturbed hpass
  have hchannels : q'.channels = q.channels ++ [q.made] := by
    rw [hsame.channels]
    simp [channels]
  refine ⟨rfl, hsame.name, hchannels, hsame.rosters, fun hq => hsame.wired ?_⟩
  have ⟨hnodup, hlt⟩ := nodup_snoc_made hq.distinct hq.numbered
  refine ⟨hq.routed.join _ _, ?_, ?_, hq.groupsDistinct, hq.groupsNumbered⟩
  · simpa [channels] using hnodup
  · simpa [channels] using hlt

theorem removeConsumer_leaves (ch : Nat) (q : Queue) :
    (q.removeConsumer ch).name = q.name ∧
      (q.removeConsumer ch).channels = q.channels.erase ch ∧
      (∀ group, (q.removeConsumer ch).rosterOf group = q.rosterOf group) ∧
      (q.Wired → (q.removeConsumer ch).Wired) := by
  have hchannels : (q.removeConsumer ch).channels = q.channels.erase ch := by
    have herase : (q.consumers.eraseP fun c => c.ch = ch).map Consumer.ch = q.channels.erase ch := by
      rw [channels, erase_eq_eraseP', eraseP_map]
      rfl
    unfold removeConsumer
    split
    · exact herase
    · rename_i hnone
      rw [← herase, eraseP_of_forall_not]
      · rfl
      · simpa using hnone
  have hsame : (q.removeConsumer ch).name = q.name ∧ (q.removeConsumer ch).made = q.made ∧
      (q.removeConsumer ch).groups = q.groups := by
    unfold removeConsumer
    split <;> exact ⟨rfl, rfl, rfl⟩
  refine ⟨hsame.1, hchannels, fun group => by rw [rosterOf, hsame.2.2, rosterOf], fun hq => ?_⟩
  refine ⟨removeConsumer_routed ch hq.routed, ?_, ?_, ?_, ?_⟩
  · rw [hchannels]
    exact hq.distinct.erase ch
  · rw [hchannels, hsame.2.1]
    exact fun other hother => hq.numbered other (mem_of_mem_erase hother)
  · intro group
    rw [rosterOf, hsame.2.2]
    exact hq.groupsDistinct group
  · intro group
    rw [rosterOf, madeIn, hsame.2.2]
    exact hq.groupsNumbered group

theorem getOrCreateGroup_undisturbed (group : String) (q : Queue) :
    Undisturbed q (q.getOrCreateGroup group) := by
  unfold getOrCreateGroup
  split
  · exact undisturbed_refl q
  · rename_i hnew
    have hnone : q.groups.find? group = none := by
      simpa [KeyedMap.contains] using hnew
    refine ⟨rfl, rfl, rfl, fun other => ?_, fun other => ?_, id⟩
    · rw [rosterOf_insert]
      split
      · rename_i hother
        rw [hother, rosterOf]
        simp only [ConsumerGroup.new, hnone]
        rfl
      · rfl
    · rw [madeIn_insert]
      split
      · rename_i hother
        rw [hother, madeIn]
        simp only [ConsumerGroup.new, hnone]
        rfl
      · rfl

theorem isSome_getOrCreateGroup (group : String) (q : Queue) :
    ((q.getOrCreateGroup group).groups.find? group).isSome := by
  unfold getOrCreateGroup
  split
  · rename_i hfound
    exact hfound
  · exact Option.isSome_of_eq_some (find?_insert_self _ (ConsumerGroup.new group q.name))

theorem Wired.insertGroup (h : q.Wired)
    (hdistinct : (g.roster.map Prod.snd).Nodup) (hnumbered : ∀ entry ∈ g.roster, entry.2 < g.made) :
    ({ q with groups := q.groups.insert g } : Queue).Wired where
  routed := h.routed
  distinct := h.distinct
  numbered := h.numbered
  groupsDistinct group := by
    rw [rosterOf_insert]
    split
    · exact hdistinct
    · exact h.groupsDistinct group
  groupsNumbered group := by
    rw [rosterOf_insert, madeIn_insert]
    split
    · exact hnumbered
    · exact h.groupsNumbered group

theorem rosterOf_of_find? (hg : q.groups.find? group = some g) :
    q.rosterOf group = g.roster ∧ q.madeIn group = g.made := by
  rw [rosterOf, madeIn, hg]
  exact ⟨rfl, rfl⟩

theorem addMember_joins
    (hg : q.groups.find? group = some g)
    (h : g.addMember memberID timeout now pass = .ok (g', ch)) (hq : q.Wired) :
    (∀ entry ∈ g.roster, entry.2 ≠ ch) ∧ ({ q with groups := q.groups.insert g' } : Queue).Wired := by
  obtain ⟨rfl, _, hmade, hroster⟩ := ConsumerGroup.addMember_roster h
  obtain ⟨hold, hmadeIn⟩ := rosterOf_of_find? hg
  have hnumbered : ∀ entry ∈ g.roster, entry.2 < g.made := by
    rw [← hold, ← hmadeIn]
    exact hq.groupsNumbered group
  refine ⟨fun entry hentry => Nat.ne_of_lt (hnumbered entry hentry), hq.insertGroup ?_ ?_⟩
  · rw [hroster, map_append]
    exact (nodup_snoc_made (hold ▸ hq.groupsDistinct group) (forall_mem_map.mpr hnumbered)).1
  · rw [hroster, hmade]
    intro entry hentry
    rcases mem_append.mp hentry with hmem | hnew
    · exact Nat.lt_succ_of_lt (hnumbered entry hmem)
    · rw [mem_singleton.mp hnew]
      exact Nat.lt_succ_self _

theorem removeMember_leaves {order : List String} {empty : Bool}
    (hg : q.groups.find? group = some g)
    (h : g.removeMember memberID clock order pass = .ok (g', empty)) (hq : q.Wired) :
    ({ q with groups := q.groups.insert g' } : Queue).Wired := by
  obtain ⟨_, hmade, hroster, _⟩ := ConsumerGroup.removeMember_roster h
  obtain ⟨hold, hmadeIn⟩ := rosterOf_of_find? hg
  have hsub : g'.roster.Sublist g.roster := hroster ▸ eraseP_sublist
  refine hq.insertGroup ((hold ▸ hq.groupsDistinct group).sublist (hsub.map Prod.snd)) ?_
  intro entry hentry
  rw [hmade, ← hmadeIn]
  exact hq.groupsNumbered group entry (hold ▸ hsub.subset hentry)

theorem removeGroup_leaves (hempty : q.rosterOf group = []) :
    (∀ other, (q.removeGroup group).rosterOf other = q.rosterOf other) ∧
      (q.Wired → (q.removeGroup group).Wired) := by
  have hroster (other : String) : (q.removeGroup group).rosterOf other = q.rosterOf other := by
    rw [rosterOf, removeGroup, find?_erase]
    split
    · rename_i hother
      rw [hother, hempty]
      rfl
    · rfl
  refine ⟨hroster, fun hq => ⟨hq.routed, hq.distinct, hq.numbered, ?_, ?_⟩⟩
  · intro other
    rw [hroster]
    exact hq.groupsDistinct other
  · intro other entry hentry
    rw [hroster] at hentry
    by_cases hother : other = group
    · rw [hother, hempty] at hentry
      cases hentry
    · rw [madeIn, removeGroup, find?_erase_of_ne _ hother]
      exact hq.groupsNumbered other entry hentry

end Queue

namespace StreamQueue

def channels (sq : StreamQueue) : List Nat := sq.consumers.map StreamConsumer.ch

structure Numbered (sq : StreamQueue) : Prop where
  distinct : sq.channels.Nodup
  numbered : ∀ ch ∈ sq.channels, ch < sq.made

theorem subscribe_channels (group : String) (offset : UInt64) (sq : StreamQueue) :
    (sq.subscribe group offset).1.channels = sq.channels ++ [sq.made] := by
  simp [subscribe, channels]

theorem Numbered.subscribe {sq : StreamQueue} (h : sq.Numbered) (group : String) (offset : UInt64) :
    (sq.subscribe group offset).1.Numbered := by
  have ⟨hnodup, hlt⟩ := Queue.nodup_snoc_made h.distinct h.numbered
  exact ⟨subscribe_channels group offset sq ▸ hnodup, subscribe_channels group offset sq ▸ hlt⟩

theorem removeConsumer_channels (ch : Nat) (sq : StreamQueue) :
    (sq.removeConsumer ch).channels = sq.channels.erase ch := by
  rw [channels, channels, removeConsumer, erase_eq_eraseP', eraseP_map]
  rfl

theorem Numbered.removeConsumer {sq : StreamQueue} (h : sq.Numbered) (ch : Nat) :
    (sq.removeConsumer ch).Numbered := by
  refine ⟨?_, ?_⟩
  · rw [removeConsumer_channels]
    exact h.distinct.erase ch
  · rw [removeConsumer_channels]
    exact fun other hother => h.numbered other (mem_of_mem_erase hother)

end StreamQueue

end QwerQ
