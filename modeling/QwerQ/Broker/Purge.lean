import QwerQ.Queue.Groups
import QwerQ.Broker.Recovery

/-! What a purge leaves. It deletes the queue's records and clears its own lists, and the
groups, which have copies of their own, keep theirs. -/
namespace QwerQ
open List Process

namespace Hub
variable {hub hub' : Hub} {history events : List Event} {g g' : ConsumerGroup}

theorem holds_kept : Kept (fun history g => g.Holds (Copy history g.name))
    fun history event => ∀ group send, event = .groupSent group send →
      Copy history group send.msg.body where
  later hg := hg.mono fun _ hcopy => hcopy.later
  toldLater htold group send heq := (htold group send heq).later
  own := by
    rintro _ _ reported _ hreport _ _ rfl
    cases reported <;> cases hreport
  new _ _ := ⟨fun _ h => absurd h not_mem_nil, fun _ h => absurd h not_mem_nil⟩
  call := by
    intro history events op reports g g' hg hop _ hcall
    obtain ⟨hafter, _, hsends⟩ := ConsumerGroup.apply_holds
      (fun msg pass heq => ⟨msg, hop msg pass heq, rfl⟩) (hg.mono fun _ hcopy => hcopy.later) hcall
    refine ⟨ConsumerGroup.apply_name hcall ▸ hafter, ?_⟩
    rintro _ hmem group send rfl
    obtain ⟨hgroup, hsend⟩ := groupSent_mem_changes hmem
    rw [hgroup]
    exact hsends send hsend

def Accepted (history : List Event) (body : Body) : Prop :=
  ∃ msg groups, .accepted msg groups ∈ history ∧ body = msg.body

theorem Accepted.later {body : Body} (h : Accepted history body) : Accepted (history ++ events) body := by
  have ⟨msg, groups, haccepted, hbody⟩ := h
  exact ⟨msg, groups, mem_append_left _ haccepted, hbody⟩

/-- All that the queue itself holds, and has sent since the start, it has accepted. -/
structure OwnAccepted (start : Queue) (history : List Event) (hub : Hub) : Prop where
  live : ∀ msg ∈ hub.queue.live, Accepted history msg.body
  sent : ∃ later, hub.queue.sent = start.sent ++ later ∧
    ∀ delivery ∈ later, Accepted history delivery.msg.body

section Own
variable {start : Queue}

theorem OwnAccepted.same (h : OwnAccepted start history hub)
    (hmessages : hub'.queue.messages = hub.queue.messages)
    (hinFlight : hub'.queue.inFlight = hub.queue.inFlight) (hsent : hub'.queue.sent = hub.queue.sent) :
    OwnAccepted start (history ++ events) hub' := by
  have ⟨later, hlater, hknown⟩ := h.sent
  refine ⟨fun msg hmsg => (h.live msg ?_).later, later, hsent.trans hlater,
    fun delivery hmem => (hknown delivery hmem).later⟩
  rwa [Queue.live, hmessages, hinFlight] at hmsg

theorem OwnAccepted.step {guard : Op → Prop} (h : OwnAccepted start history hub)
    (step : Step guard history hub events hub') : OwnAccepted start (history ++ events) hub' := by
  cases step with
  | call op _ _ happly =>
    cases op with
    | own op =>
      simp only [apply, Go.bind_eq_ok] at happly
      obtain ⟨⟨q, reports⟩, hcall, hret⟩ := happly
      cases hret
      obtain ⟨later, hlater, hknown⟩ := h.sent
      have hreports : ∀ msg, .accepted msg ∈ reports → Accepted (history ++
          (reports.filterMap (report hub.queue) ++ groupChanges hub.queue q)) msg.body := by
        intro msg hmsg
        refine ⟨msg, hub.queue.groups.keys, mem_append_right _ (mem_append_left _ ?_), rfl⟩
        exact mem_filterMap.mpr ⟨_, hmsg, rfl⟩
      obtain ⟨hlive, hsends⟩ :=
        (Queue.apply_splits hcall).known _ (fun msg hmsg => (h.live msg hmsg).later) hreports
      refine ⟨hlive, later ++ Queue.newSends hub.queue q, ?_, fun delivery hmem => ?_⟩
      · rw [(Queue.apply_splits hcall).sent, hlater, append_assoc]
      · rcases mem_append.mp hmem with hold | hnew
        · exact (hknown delivery hold).later
        · exact hsends delivery hnew
    | getOrCreateGroup group =>
      cases happly
      refine h.same ?_ ?_ ?_ <;> simp only [Queue.getOrCreateGroup] <;> split <;> rfl
    | removeGroup group =>
      cases happly
      exact h.same rfl rfl rfl
    | inGroup | inDetached =>
      simp only [apply] at happly
      split at happly
      · cases happly
        exact h.same rfl rfl rfl
      · simp only [Go.bind_eq_ok] at happly
        obtain ⟨_, _, hret⟩ := happly
        cases hret
        exact h.same rfl rfl rfl

end Own

/-- Every send in a run from that queue, to a member of a group or to a consumer of its
own, is of a message that was accepted in the run. -/
structure SendsAccepted (q : Queue) (history : List Event) (hub : Hub) : Prop where
  groups : ∀ group send, .groupSent group send ∈ history → Copy history group send.msg.body
  own : ∀ delivery ∈ Queue.newSends q hub.queue, Accepted history delivery.msg.body

theorem Runs.sendsAccepted {guard : Op → Prop} {q : Queue} (hlive : q.live = [])
    (hgroups : ∀ g ∈ q.groups.entries, g.messages = [] ∧ g.inFlight.entries = [])
    (run : Runs guard ⟨q, []⟩ history hub) : SendsAccepted q history hub := by
  have heach := run.each holds_kept
    ⟨fun g hg => ⟨by simp [(hgroups g hg).1], by simp [(hgroups g hg).2]⟩,
      fun _ h => absurd h not_mem_nil, fun _ h => absurd h not_mem_nil⟩
  have hown : OwnAccepted q history hub := run.invariant (OwnAccepted q)
    ⟨by simp [hlive], [], (append_nil _).symm, fun _ h => absurd h not_mem_nil⟩
    fun h step => h.step step
  refine ⟨fun group send hsend => heach.told _ hsend group send rfl, ?_⟩
  have ⟨later, hlater, hknown⟩ := hown.sent
  rw [Queue.newSends, hlater, drop_left]
  exact hknown

end Hub

/-- Nothing of what was published is left of the queue: nothing is pending or in flight in
it or in its groups, nothing is stored, whatever is sent from then on was published from
then on, and a restart recovers nothing. -/
structure PurgeComplete (name : String) (w : World) : Prop where
  own : ∀ q, w.queue? name = some q → q.messages = [] ∧ q.inFlight.entries = []
  groups : ∀ q, w.queue? name = some q →
    ∀ g ∈ q.groups.entries, g.messages = [] ∧ g.inFlight.entries = []
  stored : w.disk.storage.loadMessages name = []
  later : ∀ q, w.queue? name = some q → ∀ history hub,
    Hub.Runs Hub.anyCall ⟨q, []⟩ history hub → Hub.SendsAccepted q history hub
  restart : ∀ memoryLimit order env,
    (loadFromStorage order env).Returns (w.restarted memoryLimit) fun err w' =>
      err = none ∧ ∀ q, w'.queue? name = some q → q.live = []

/-- The groups of the queue hold nothing; or there is no such queue, and nothing is stored. -/
def NothingElsewhere (name : String) (w : World) : Prop :=
  match w.queue? name with
  | some q => ∀ g ∈ q.groups.entries, g.messages = [] ∧ g.inFlight.entries = []
  | none => w.disk.storage.loadMessages name = []

section Purge
variable {w : World} {name : String}

theorem loadMessages_deleteQueueMessages (name : String) (s : Storage) :
    (s.deleteQueueMessages name).loadMessages name = [] := by
  rw [eq_nil_iff_forall_not_mem]
  intro msg hmsg
  have ⟨hmem, hqueue⟩ := Storage.mem_loadMessages.mp hmsg
  have hkept := of_mem_filter hmem
  simp [hqueue] at hkept

theorem PurgeComplete.of_empty (hsound : w.disk.Sound)
    (hown : ∀ q, w.queue? name = some q → q.messages = [] ∧ q.inFlight.entries = [])
    (hgroups : ∀ q, w.queue? name = some q →
      ∀ g ∈ q.groups.entries, g.messages = [] ∧ g.inFlight.entries = [])
    (hstored : w.disk.storage.loadMessages name = []) : PurgeComplete name w where
  own := hown
  groups := hgroups
  stored := hstored
  later q hq history hub run := by
    refine run.sendsAccepted ?_ (hgroups q hq)
    rw [Queue.live, (hown q hq).1, (hown q hq).2]
    rfl
  restart memoryLimit order env := by
    have hload : (loadFromStorage order env).Returns (w.restarted memoryLimit) fun err w' =>
        err = none ∧ Recovered w.disk.storage w' :=
      loadFromStorage_recovers order env hsound (fun _ => rfl) fun _ => rfl
    refine hload.mono fun err w' hloaded => ⟨hloaded.1, fun q hq => ?_⟩
    obtain ⟨hflying, hpending⟩ := hloaded.2.pending hq
    rw [Queue.live, hflying, hpending]
    change (w.disk.storage.loadMessages name).map recovered ++ [] = []
    rw [hstored]
    rfl

/-- A purge that returns is complete exactly if the groups hold nothing. -/
theorem purgeQueue_complete_iff (hsound : w.disk.Sound) :
    (purgeQueue name).Returns w fun result w' =>
      result.2 = none ∧ (PurgeComplete name w' ↔ NothingElsewhere name w) := by
  refine returns_lookup (fun hq => ⟨rfl, ?_⟩) fun q hq => ?_
  · simp only [NothingElsewhere, hq]
    exact ⟨fun h => h.stored, .of_empty hsound (by simp [hq]) (by simp [hq])⟩
  · simp only [deleteQueueMessages, returns_bind, returns_write_sound hsound]
    refine (returns_lockedPure (show (w.store _).queue? name = some q from hq)).mpr
      ⟨q.purge.1, q.purge.2, rfl, rfl, ?_⟩
    simp only [NothingElsewhere, hq]
    have hname : q.name = name := World.queue?_name hq
    have hafter : (World.setQueue q.purge.1 (w.store (Storage.deleteQueueMessages name))).queue? name =
        some q.purge.1 := by
      rw [← hname]
      exact World.queue?_setQueue_self q.purge.1 _
    constructor
    · intro h
      exact h.groups q.purge.1 hafter
    · intro hgroups
      refine .of_empty ⟨hsound.present, hsound.faults⟩ ?_ ?_ (loadMessages_deleteQueueMessages name _)
      · intro other hother
        rw [hafter] at hother
        cases hother
        exact ⟨rfl, rfl⟩
      · intro other hother
        rw [hafter] at hother
        cases hother
        exact hgroups

end Purge

/-- A queue with one order, stored and pending in the queue and in those groups. -/
def orderedWorld (groups : KeyedMap ConsumerGroup.name) : World :=
  ((World.fresh 0).setQueue
    { Queue.new "orders" with messages := [Queue.order "a"], groups := groups }).store
      (Storage.saveMessage (Queue.order "a"))

theorem orderedWorld_sound (groups : KeyedMap ConsumerGroup.name) : (orderedWorld groups).disk.Sound :=
  ⟨rfl, rfl⟩

theorem purgeQueue_complete_ungrouped :
    (purgeQueue "orders").Returns (orderedWorld ∅) fun result w' =>
      result.2 = none ∧ PurgeComplete "orders" w' := by
  refine (purgeQueue_complete_iff (orderedWorld_sound ∅)).mono fun result w' h => ⟨h.1, h.2.mpr ?_⟩
  exact fun g hg => absurd hg List.not_mem_nil

def workersCopy : KeyedMap ConsumerGroup.name :=
  (∅ : KeyedMap ConsumerGroup.name).insert
    { ConsumerGroup.new "workers" "orders" with
      messages := [⟨ConsumerGroup.clone (Queue.order "a"), 0⟩]
      cloned := 1 }

/-- The group of workers was there when the order was published. A worker who joins after
the purge is sent the order. -/
theorem purge_leaves_group_copy :
    (∃ hub events, Hub.play [.getOrCreateGroup "workers", .own (.enqueue (Queue.order "a") Queue.quiet)]
      (Hub.new "orders") = .ok (events, hub) ∧
        (orderedWorld workersCopy).queue? "orders" = some hub.queue) ∧
    (orderedWorld workersCopy).disk.Sound ∧
    (purgeQueue "orders").Returns (orderedWorld workersCopy) fun result w' =>
      result = (1, none) ∧ ¬PurgeComplete "orders" w' ∧
      ∃ q hub, w'.queue? "orders" = some q ∧
        Hub.play [.inGroup "workers" (.addMember "x" 30 0 ⟨0, []⟩)] ⟨q, []⟩ =
          .ok ([.groupSent "workers" ⟨0, "x", ⟨ConsumerGroup.clone (Queue.order "a"), 0⟩⟩], hub) := by
  refine ⟨⟨_, _, rfl, rfl⟩, orderedWorld_sound workersCopy, rfl, fun h => ?_, _, _, rfl, rfl⟩
  have hgroups := h.groups _ rfl _ List.mem_cons_self
  exact absurd hgroups.1 (List.cons_ne_nil _ _)

end QwerQ
