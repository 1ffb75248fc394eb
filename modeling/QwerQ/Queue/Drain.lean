import QwerQ.Queue.Groups

/-! A queue that only groups consume. A publish leaves a message in the queue's own
pending list besides the copy it gives to each group, and what the groups do with
their copies does not reach that list. -/
namespace QwerQ
open List

namespace Queue
variable {q q' : Queue}

def Event.accepts : Event → Bool
  | .accepted _ => true
  | _ => false

def Event.settles : Event → Bool
  | .settled _ _ => true
  | _ => false

structure Unconsumed (q : Queue) : Prop where
  consumers : q.consumers = []
  inFlight : q.inFlight = ∅

theorem Unconsumed.tryDeliver {pass : Pass} (h : q.Unconsumed) : q.tryDeliver pass = .ok q := by
  rw [Queue.tryDeliver, h.consumers]
  rfl

/-- Pending messages come from accepted publishes and go by removals and purges. -/
structure Balanced (q : Queue) (reports : List Event) (q' : Queue) : Prop where
  unconsumed : q'.Unconsumed
  messages : q'.messages.length + reports.countP Event.settles =
    q.messages.length + reports.countP Event.accepts

theorem Unconsumed.balanced (h : q.Unconsumed) : Balanced q [] q := ⟨h, rfl⟩

theorem Balanced.of_groups {method : ConsumerGroup → Go ConsumerGroup} {changed : Queue}
    {reports : List Event} (h : Balanced q reports changed)
    (hgroups : changed.forGroups method = .ok q') : Balanced q reports q' := by
  rw [forGroups_same hgroups]
  exact ⟨⟨h.unconsumed.consumers, h.unconsumed.inFlight⟩, h.messages⟩

theorem Unconsumed.enqueueDirect {msg : Message} {env : Env} (h : q.Unconsumed)
    (hcall : q.enqueueDirect msg env = .ok q') : Balanced q [.accepted msg] q' := by
  have hpushed : ({ q with messages := q.messages ++ [msg] } : Queue).Unconsumed :=
    ⟨h.consumers, h.inFlight⟩
  rw [Queue.enqueueDirect, hpushed.tryDeliver] at hcall
  refine Balanced.of_groups ⟨hpushed, ?_⟩ hcall
  exact length_append

theorem Unconsumed.find?_inFlight (h : q.Unconsumed) (id : String) : q.inFlight.find? id = none := by
  rw [h.inFlight]
  rfl

theorem Unconsumed.swept (now : Time) (order : List String) (h : q.Unconsumed) :
    q.swept now order = q := by
  have hnone : (q.inFlight.inOrder order) = [] := by
    rw [eq_nil_iff_forall_not_mem]
    intro msg hmem
    rw [KeyedMap.mem_inOrder, h.inFlight] at hmem
    cases hmem
  rw [Queue.swept, hnone, h.inFlight]
  simp only [filter_nil, map_nil, append_nil]
  rw [show (∅ : KeyedMap Message.id).filter (fun msg => !expired now msg) = ∅ from rfl, ← h.inFlight]

theorem Unconsumed.remove {id : String} (h : q.Unconsumed) :
    Balanced q (if (q.remove id).2 then [.settled id .removed] else []) (q.remove id).1 := by
  unfold Queue.remove
  split
  · rename_i hany
    refine ⟨⟨h.consumers, h.inFlight⟩, ?_⟩
    obtain ⟨msg, hmem, hid⟩ := any_eq_true.mp hany
    have hlength := length_eraseP_of_mem (p := fun msg => decide (msg.id = id)) hmem hid
    have hpos := length_pos_of_mem hmem
    simp only [if_true, countP_cons, countP_nil, Event.settles, Event.accepts]
    simp only [hlength, Bool.false_eq_true, if_false]
    omega
  · rw [KeyedMap.contains, h.find?_inFlight]
    exact h.balanced

theorem apply_balanced {op : Op} {reports : List Event} (h : q.Unconsumed)
    (hop : ∀ timeout pass, op ≠ .dequeue timeout pass) (hcall : q.apply op = .ok (q', reports)) :
    Balanced q reports q' := by
  cases op with
  | enqueue msg env =>
    simp only [apply, Go.bind_eq_ok] at hcall
    obtain ⟨⟨_, _⟩, henqueue, hret⟩ := hcall
    cases hret
    rcases enqueue_cases henqueue with ⟨_, rfl, rfl⟩ | ⟨_, rfl, hdirect⟩
    · exact h.balanced
    · exact h.enqueueDirect hdirect
  | enqueueDirect msg env =>
    simp only [apply, Go.bind_eq_ok] at hcall
    obtain ⟨_, hdirect, hret⟩ := hcall
    cases hret
    exact h.enqueueDirect hdirect
  | dequeue timeout pass => exact absurd rfl (hop timeout pass)
  | removeConsumer ch =>
    cases hcall
    rw [removeConsumer, h.consumers]
    exact h.balanced
  | receive ch =>
    cases hcall
    refine ⟨⟨?_, h.inFlight⟩, rfl⟩
    rw [receive, h.consumers]
    rfl
  | ack id hook pass =>
    simp only [apply, ackWithHook, h.find?_inFlight] at hcall
    cases hcall
    exact h.balanced
  | nack id requeue dropHook requeueHook now pass =>
    simp only [apply, nackWithHooks, h.find?_inFlight] at hcall
    cases hcall
    exact h.balanced
  | requeueExpired sweep group =>
    simp only [apply, requeueExpired, requeueExpiredOwn, foldl_expire_inOrder, Go.bind_eq_ok] at hcall
    obtain ⟨_, ⟨delivered, hpass, hgroups⟩, hret⟩ := hcall
    cases hret
    rw [h.swept, h.tryDeliver] at hpass
    cases hpass
    exact Balanced.of_groups ⟨h, rfl⟩ hgroups
  | extendVisibility id extension now =>
    simp only [apply, extendVisibility, h.find?_inFlight, KeyedMap.contains] at hcall
    cases hcall
    exact h.balanced
  | remove id =>
    cases hcall
    exact h.remove
  | purge =>
    cases hcall
    refine ⟨⟨h.consumers, rfl⟩, ?_⟩
    simp [purge, live, h.inFlight, countP_map, Function.comp_def, Event.settles, Event.accepts]
  | _ =>
    cases hcall
    exact ⟨⟨h.consumers, h.inFlight⟩, rfl⟩

end Queue

namespace Hub
variable {hub hub' : Hub} {history events : List Event}

def groupsOnly (op : Op) : Prop := ∀ timeout pass, op ≠ .own (.dequeue timeout pass)

def Event.accepts : Event → Bool
  | .accepted _ _ => true
  | _ => false

def Event.settles : Event → Bool
  | .settled _ _ => true
  | _ => false

def published (history : List Event) : Nat := history.countP Event.accepts

def takenOut (history : List Event) : Nat := history.countP Event.settles

theorem published_append (left right : List Event) :
    published (left ++ right) = published left + published right :=
  countP_append

theorem takenOut_append (left right : List Event) :
    takenOut (left ++ right) = takenOut left + takenOut right :=
  countP_append

theorem mem_changes_counts {reports : List ConsumerGroup.Event} {g g' : ConsumerGroup} {event : Event}
    (h : event ∈ changes reports g g') : ¬event.accepts = true ∧ ¬event.settles = true := by
  simp only [changes, mem_append, mem_map, mem_filterMap] at h
  rcases h with (⟨_, _, rfl⟩ | ⟨_, _, rfl⟩) | ⟨reported, _, hreport⟩
  · exact ⟨Bool.false_ne_true, Bool.false_ne_true⟩
  · exact ⟨Bool.false_ne_true, Bool.false_ne_true⟩
  · cases reported <;> cases hreport <;> exact ⟨Bool.false_ne_true, Bool.false_ne_true⟩

theorem counts_none (h : ∀ event ∈ events, ¬event.accepts = true ∧ ¬event.settles = true) :
    published events = 0 ∧ takenOut events = 0 :=
  ⟨countP_eq_zero.mpr fun event hmem => (h event hmem).1,
    countP_eq_zero.mpr fun event hmem => (h event hmem).2⟩

theorem groupChanges_counts (q q' : Queue) :
    published (groupChanges q q') = 0 ∧ takenOut (groupChanges q q') = 0 := by
  refine counts_none fun event h => ?_
  obtain ⟨g, _, hevent⟩ := mem_flatMap.mp h
  cases hfind : q'.groups.find? g.name with
  | none =>
    rw [hfind] at hevent
    cases hevent
  | some g' =>
    rw [hfind] at hevent
    exact mem_changes_counts hevent

theorem reports_counts (q : Queue) (reports : List Queue.Event) :
    published (reports.filterMap (report q)) = reports.countP Queue.Event.accepts ∧
      takenOut (reports.filterMap (report q)) = reports.countP Queue.Event.settles := by
  rw [published, takenOut, countP_filterMap, countP_filterMap]
  constructor
  · refine countP_congr fun event _ => ?_
    cases event <;> exact Iff.rfl
  · refine countP_congr fun event _ => ?_
    cases event <;> exact Iff.rfl

/-- The queue's own list counts the publishes, whatever the groups have done. -/
structure Piled (history : List Event) (hub : Hub) : Prop where
  unconsumed : hub.queue.Unconsumed
  pending : hub.queue.messages.length + takenOut history = published history

theorem Piled.of_groups {detached : List ConsumerGroup}
    {groups : KeyedMap ConsumerGroup.name} {reports : List ConsumerGroup.Event}
    {g g' : ConsumerGroup} (h : Piled history hub) :
    Piled (history ++ changes reports g g') ⟨{ hub.queue with groups := groups }, detached⟩ := by
  obtain ⟨haccepts, hsettles⟩ : published (changes reports g g') = 0 ∧ takenOut (changes reports g g') = 0 :=
    counts_none fun _ => mem_changes_counts
  refine ⟨⟨h.unconsumed.consumers, h.unconsumed.inFlight⟩, ?_⟩
  rw [published_append, takenOut_append, haccepts, hsettles]
  exact h.pending

theorem Piled.same {detached : List ConsumerGroup} {groups : KeyedMap ConsumerGroup.name}
    (h : Piled history hub) :
    Piled (history ++ []) ⟨{ hub.queue with groups := groups }, detached⟩ := by
  rw [append_nil]
  exact ⟨⟨h.unconsumed.consumers, h.unconsumed.inFlight⟩, h.pending⟩

theorem Piled.step (h : Piled history hub) (step : Step groupsOnly history hub events hub') :
    Piled (history ++ events) hub' := by
  cases step with
  | call op hguard _ happly =>
    cases op with
    | own op =>
      simp only [apply, Go.bind_eq_ok] at happly
      obtain ⟨⟨q, reports⟩, hcall, hret⟩ := happly
      cases hret
      have hbalanced := Queue.apply_balanced h.unconsumed
        (fun timeout pass heq => hguard timeout pass (heq ▸ rfl)) hcall
      refine ⟨hbalanced.unconsumed, ?_⟩
      obtain ⟨haccepts, hsettles⟩ := reports_counts hub.queue reports
      obtain ⟨hnone, hkept⟩ := groupChanges_counts hub.queue q
      simp only [published_append, takenOut_append, haccepts, hsettles, hnone, hkept]
      have hmessages := hbalanced.messages
      have hpending := h.pending
      omega
    | getOrCreateGroup group =>
      cases happly
      unfold Queue.getOrCreateGroup
      split <;> exact h.same
    | removeGroup group =>
      cases happly
      exact h.same
    | inGroup | inDetached =>
      simp only [apply] at happly
      split at happly
      · cases happly
        exact h.same
      · simp only [Go.bind_eq_ok] at happly
        obtain ⟨_, _, hret⟩ := happly
        cases hret
        exact h.of_groups

theorem Runs.piled {name : String} (run : Runs groupsOnly (new name) history hub) :
    Piled history hub :=
  run.invariant Piled ⟨⟨rfl, rfl⟩, rfl⟩ fun h step => h.step step

def Drained (hub : Hub) : Prop :=
  ∀ g ∈ hub.queue.groups.entries, g.messages = [] ∧ g.inFlight = ∅

/-- Once the groups are done the queue holds nothing, and a publish is not refused. -/
def Drains (hub : Hub) : Prop :=
  hub.Drained → hub.queue.messages = [] ∧ ∀ msg env, hub.queue.enqueue msg env ≠
    .ok (hub.queue, some .queueFull)

/-- Drained groups leave the queue empty just when every accepted publish was taken
out by a removal or a purge. -/
theorem groups_drain_iff {name : String} (run : Runs groupsOnly (new name) history hub) :
    hub.Drains ↔ (hub.Drained → takenOut history = published history) := by
  have hpending := run.piled.pending
  have hempty : hub.queue.messages = [] ↔ takenOut history = published history := by
    rw [List.eq_nil_iff_length_eq_zero]
    omega
  rw [Drains, ← hempty]
  refine forall_congr' fun _ => and_iff_left_iff_imp.mpr fun hnil msg env hrefused => ?_
  rcases Queue.enqueue_cases hrefused with ⟨hfull, _⟩ | ⟨_, hok, _⟩
  · simp only [Queue.full, hnil, List.length_nil, Nat.cast_zero, decide_eq_true_eq] at hfull
    omega
  · cases hok

private def ackedByGroup : List Op :=
  [.own (.setMaxSize 1), .getOrCreateGroup "workers",
    .inGroup "workers" (.addMember "x" 30 0 ⟨0, []⟩),
    .own (.enqueue (ConsumerGroup.job "a") Queue.quiet), .inGroup "workers" (.receive 0),
    .inGroup "workers" (.ack "a" none ⟨1, []⟩)]

private theorem ackedByGroup_groupsOnly :
    ∀ op ∈ ackedByGroup ++ [.own .purge], groupsOnly op ∧ op.fansOut = true := by
  intro op hop
  simp only [ackedByGroup, cons_append, nil_append, mem_cons, not_mem_nil,
    or_false] at hop
  rcases hop with rfl | rfl | rfl | rfl | rfl | rfl | rfl <;> exact ⟨fun _ _ => nofun, rfl⟩

theorem groups_drain_purged :
    ∃ history hub, Runs groupsOnly (new "orders") history hub ∧ published history = 1 ∧
      hub.Drained ∧ hub.Drains := by
  have hplay : ∃ history hub, play (ackedByGroup ++ [.own .purge]) (new "orders") =
      .ok (history, hub) ∧ takenOut history = 1 ∧ published history = 1 ∧ hub.Drained := by
    refine ⟨_, _, rfl, rfl, rfl, ?_⟩
    intro g hg
    rw [List.mem_singleton.mp hg]
    exact ⟨rfl, rfl⟩
  have ⟨history, hub, hplay, htaken, hpublished, hdrained⟩ := hplay
  have run := play_runs .start ackedByGroup_groupsOnly hplay
  refine ⟨_, hub, run, hpublished, hdrained, (groups_drain_iff run).mpr fun _ => ?_⟩
  exact htaken.trans hpublished.symm

/-- The group is done and the queue is still full. -/
theorem full_after_groups_acked :
    ∃ history hub, Runs groupsOnly (new "orders") history hub ∧ hub.Drained ∧
      hub.queue.messages = [ConsumerGroup.job "a"] ∧
      hub.queue.enqueue (ConsumerGroup.job "b") Queue.quiet = .ok (hub.queue, some .queueFull) ∧
      ¬ hub.Drains := by
  have hplay : ∃ history hub, play ackedByGroup (new "orders") = .ok (history, hub) ∧
      hub.Drained ∧ hub.queue.messages = [ConsumerGroup.job "a"] ∧
      hub.queue.enqueue (ConsumerGroup.job "b") Queue.quiet =
        .ok (hub.queue, some .queueFull) := by
    refine ⟨_, _, rfl, ?_, rfl, rfl⟩
    intro g hg
    rw [List.mem_singleton.mp hg]
    exact ⟨rfl, rfl⟩
  have ⟨history, hub, hplay, hdrained, hpending, hrefused⟩ := hplay
  have run := play_runs .start
    (fun op hop => ackedByGroup_groupsOnly op (List.mem_append_left _ hop)) hplay
  exact ⟨_, hub, run, hdrained, hpending, hrefused, fun h => (h hdrained).2 _ _ hrefused⟩

end Hub
end QwerQ
