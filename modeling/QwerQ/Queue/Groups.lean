import QwerQ.Group.Copies
import QwerQ.Queue.Registry

/-! Runs of a queue together with its groups. A message reaches a group by the
queue's fan-out only; everything else is called on a group itself. A group that is
taken out of the queue's map lives on for those who still hold it. -/
namespace QwerQ
open List ConsumerGroup KeyedMap

structure Hub where
  queue : Queue
  detached : List ConsumerGroup

namespace Hub
variable {hub hub' : Hub}

def new (name : String) : Hub := ⟨Queue.new name, []⟩

/-- An accepted message is recorded with the groups that the queue has at that time,
a member by its id and channel. What is delivered is what the receiver has read of the
object that was sent. -/
inductive Event where
  | accepted (msg : Message) (groups : List String)
  | settled (id : String) (how : Queue.Settlement)
  | groupSent (group : String) (send : GroupSend)
  | delivered (group : String) (send : GroupSend)
  | assigned (group : String) (unread : List GroupSend)
  | left (group : String) (member : String × Nat)
  deriving DecidableEq

inductive Op where
  | own (op : Queue.Op)
  | getOrCreateGroup (group : String)
  | removeGroup (group : String)
  | inGroup (group : String) (op : ConsumerGroup.Op)
  | inDetached (idx : Nat) (op : ConsumerGroup.Op)

def report (q : Queue) : Queue.Event → Option Event
  | .accepted msg => some (.accepted msg q.groups.keys)
  | .settled id how => some (.settled id how)
  | _ => none

def groupReport (group : String) : ConsumerGroup.Event → Option Event
  | .read send => some (.delivered group send)
  | .assigned unread => some (.assigned group unread)
  | _ => none

def changes (reports : List ConsumerGroup.Event) (g g' : ConsumerGroup) : List Event :=
  (g.roster.filter fun member => member ∉ g'.roster).map (.left g.name) ++
    (ConsumerGroup.newSends g g').map (.groupSent g.name) ++
    reports.filterMap (groupReport g.name)

def groupChanges (q q' : Queue) : List Event :=
  q.groups.entries.flatMap fun g => ((q'.groups.find? g.name).map (changes [] g)).getD []

def apply : Op → Hub → Go (Hub × List Event)
  | .own op, hub => do
      let (q, reports) ← hub.queue.apply op
      return ({ hub with queue := q },
        reports.filterMap (report hub.queue) ++ groupChanges hub.queue q)
  | .getOrCreateGroup group, hub =>
      .ok ({ hub with queue := hub.queue.getOrCreateGroup group }, [])
  | .removeGroup group, hub =>
      .ok (⟨hub.queue.removeGroup group,
        hub.detached ++ (hub.queue.groups.find? group).toList⟩, [])
  | .inGroup group op, hub =>
      match hub.queue.groups.find? group with
      | none => .ok (hub, [])
      | some g => do
          let (g', reports) ← g.apply op
          return ({ hub with queue := { hub.queue with groups := hub.queue.groups.insert g' } },
            changes reports g g')
  | .inDetached idx op, hub =>
      match hub.detached[idx]? with
      | none => .ok (hub, [])
      | some g => do
          let (g', reports) ← g.apply op
          return ({ hub with detached := hub.detached.set idx g' }, changes reports g g')

/-- Nobody but the queue enqueues on a group. -/
def Op.fansOut : Op → Bool
  | .inGroup _ (.enqueue _ _) => false
  | .inDetached _ (.enqueue _ _) => false
  | _ => true

inductive Step (guard : Op → Prop) : List Event → Hub → List Event → Hub → Prop where
  | call {history events : List Event} {hub hub' : Hub} (op : Op) :
      guard op → op.fansOut = true → hub.apply op = .ok (hub', events) →
      Step guard history hub events hub'

abbrev Runs (guard : Op → Prop) := Run (Step guard)

def anyCall (_ : Op) : Prop := True

def play : List Op → Hub → Go (List Event × Hub)
  | [], hub => .ok ([], hub)
  | op :: ops, hub => do
      let (hub', events) ← hub.apply op
      let (later, last) ← play ops hub'
      return (events ++ later, last)

variable {g g' : ConsumerGroup} {send : GroupSend} {start : Hub}

theorem play_runs {guard : Op → Prop} {ops : List Op} {hub last : Hub}
    {history events : List Event} (run : Runs guard start history hub)
    (hops : ∀ op ∈ ops, guard op ∧ op.fansOut = true) (h : play ops hub = .ok (events, last)) :
    Runs guard start (history ++ events) last := by
  induction ops generalizing hub history events with
  | nil =>
    cases h
    rwa [append_nil]
  | cons op ops ih =>
    simp only [play, Go.bind_eq_ok] at h
    obtain ⟨⟨next, first⟩, hcall, ⟨later, _⟩, hrest, hret⟩ := h
    cases hret
    obtain ⟨⟨hguard, hfans⟩, hlater⟩ := forall_mem_cons.mp hops
    rw [← append_assoc]
    exact ih (run.next (.call op hguard hfans hcall)) hlater hrest

end Hub

namespace Queue
variable {q q' : Queue} {g g' : ConsumerGroup} {reports : List Event} {msg : Message}

/-- The group was called once, or not at all; what was enqueued on it, the queue has
accepted, and no object of it was used. -/
def Forwards (reports : List Event) (g g' : ConsumerGroup) : Prop :=
  g' = g ∨ ∃ op events, g.apply op = .ok (g', events) ∧ events.filterMap (Hub.groupReport g.name) = [] ∧
    ∀ msg pass, op = .enqueue msg pass → .accepted msg ∈ reports

theorem Forwards.name (h : Forwards reports g g') : g'.name = g.name := by
  rcases h with rfl | ⟨op, events, happly, _⟩
  · rfl
  · exact apply_name happly

theorem enqueue_forwards {pass : Pass}
    (hmsg : .accepted msg ∈ reports) (h : g.enqueue msg pass = .ok g') : Forwards reports g g' := by
  refine .inr ⟨.enqueue msg pass, [.accepted msg], ?_, rfl, fun _ _ heq => by cases heq; exact hmsg⟩
  rw [ConsumerGroup.apply, h]
  rfl

theorem requeueExpired_forwards {sweep : Sweep}
    (h : g.requeueExpired sweep = .ok g') : Forwards reports g g' := by
  refine .inr ⟨.requeueExpired sweep, [], ?_, rfl, fun _ _ heq => by cases heq⟩
  rw [ConsumerGroup.apply, h]
  rfl

/-- Each group of the queue was called once, or not at all. -/
def ForwardsEach (reports : List Event) (q q' : Queue) : Prop :=
  ∀ group, q.groups.find? group = none ∧ q'.groups.find? group = none ∨
    ∃ g g', q.groups.find? group = some g ∧ Forwards reports g g' ∧ q'.groups.find? group = some g'

theorem ForwardsEach.of_same (h : q'.groups = q.groups) :
    ForwardsEach reports q q' := by
  intro group
  rw [h]
  cases q.groups.find? group with
  | none => exact .inl ⟨rfl, rfl⟩
  | some g => exact .inr ⟨g, g, rfl, .inl rfl, rfl⟩

theorem ForwardsEach.of_visits {method : ConsumerGroup → Go ConsumerGroup}
    {changed : Queue} (hgroups : changed.groups = q.groups)
    (hmethod : ∀ {g g'}, method g = .ok g' → Forwards reports g g')
    (h : changed.forGroups method = .ok q') : ForwardsEach reports q q' := by
  intro group
  rcases forGroups_visits (fun hok => (hmethod hok).name) h group with ⟨hnone, hstill⟩ | ⟨g, g', hfind, hok, hfound⟩
  · exact .inl ⟨hgroups ▸ hnone, hstill⟩
  · exact .inr ⟨g, g', hgroups ▸ hfind, hmethod hok, hfound⟩

theorem apply_forwards {op : Op} (h : q.apply op = .ok (q', reports)) :
    ForwardsEach reports q q' := by
  have ⟨changed, delivered, phases⟩ := apply_phases h
  have hgroups : delivered.groups = q.groups := by
    rcases phases.pass with rfl | ⟨pass, hpass⟩
    · exact phases.groups
    · have ⟨_, run⟩ := tryDeliver_delivers hpass
      rw [run.same]
      exact phases.groups
  rcases phases.visits with rfl | ⟨msg, group, hmsg, hfan⟩ | ⟨group, hsweep⟩
  · exact .of_same hgroups
  · exact .of_visits hgroups (enqueue_forwards hmsg) hfan
  · exact .of_visits hgroups requeueExpired_forwards hsweep

end Queue

namespace Hub
variable {hub hub' : Hub} {history events : List Event} {group : String} {g g' : ConsumerGroup}
  {send : GroupSend}

def FannedOut (history : List Event) (group : String) (msg : Message) : Prop :=
  ∃ groups, .accepted msg groups ∈ history ∧ group ∈ groups

/-- What holds of a group, and of what is reported of it, whatever is called on it. -/
structure Kept (holds : List Event → ConsumerGroup → Prop) (told : List Event → Event → Prop) :
    Prop where
  later : ∀ {history events g}, holds history g → holds (history ++ events) g
  toldLater : ∀ {history events event}, told history event → told (history ++ events) event
  own : ∀ {history q reported event}, report q reported = some event → told history event
  new : ∀ {history} (group queueName : String), holds history (.new group queueName)
  call : ∀ {history events op reports g g'}, holds history g →
    (∀ msg pass, op = .enqueue msg pass → FannedOut (history ++ events) g.name msg) →
    (∀ event ∈ changes reports g g', event ∈ events) →
    ConsumerGroup.apply op g = .ok (g', reports) →
    holds (history ++ events) g' ∧ ∀ event ∈ changes reports g g', told (history ++ events) event

structure Each (holds : List Event → ConsumerGroup → Prop) (told : List Event → Event → Prop)
    (history : List Event) (hub : Hub) : Prop where
  registered : ∀ g ∈ hub.queue.groups.entries, holds history g
  detached : ∀ g ∈ hub.detached, holds history g
  told : ∀ event ∈ history, told history event

theorem changes_self (g : ConsumerGroup) : changes [] g g = [] := by
  simp [changes, ConsumerGroup.newSends]

variable {reports : List ConsumerGroup.Event}

theorem groupSent_mem_changes (h : .groupSent group send ∈ changes reports g g') :
    group = g.name ∧ send ∈ ConsumerGroup.newSends g g' := by
  simp only [changes, mem_append, mem_map, reduceCtorEq, and_false, exists_false, false_or,
    mem_filterMap] at h
  rcases h with ⟨_, hsend, heq⟩ | ⟨reported, _, hreport⟩
  · cases heq
    exact ⟨rfl, hsend⟩
  · cases reported <;> cases hreport

theorem delivered_mem_changes (h : .delivered group send ∈ changes reports g g') : group = g.name ∧ .read send ∈ reports := by
  simp only [changes, mem_append, mem_map, reduceCtorEq, and_false, exists_false, false_or,
    mem_filterMap] at h
  obtain ⟨reported, hmem, hreport⟩ := h
  cases reported <;> cases hreport
  exact ⟨rfl, hmem⟩

section Each
variable {holds : List Event → ConsumerGroup → Prop} {told : List Event → Event → Prop}
  {start : Hub}

theorem Each.told_later (h : Each holds told history hub) (hkept : Kept holds told)
    (hevents : ∀ event ∈ events, told (history ++ events) event) :
    ∀ event ∈ history ++ events, told (history ++ events) event := by
  intro event hmem
  rcases mem_append.mp hmem with hold | hnew
  · exact hkept.toldLater (h.told event hold)
  · exact hevents event hnew

theorem Each.own {q : Queue} {op : Queue.Op} {reports : List Queue.Event}
    (h : Each holds told history hub) (hkept : Kept holds told)
    (happly : hub.queue.apply op = .ok (q, reports))
    (hevents : reports.filterMap (report hub.queue) ++ groupChanges hub.queue q = events) :
    Each holds told (history ++ events) { hub with queue := q } := by
  have hforwards := Queue.apply_forwards happly
  have hcall {g g' : ConsumerGroup} (hg : hub.queue.groups.find? g.name = some g)
      (hforward : Queue.Forwards reports g g') (hafter : q.groups.find? g.name = some g') :
      holds (history ++ events) g' ∧ ∀ event ∈ changes [] g g', told (history ++ events) event := by
    have hmem := (find?_eq_some_iff.mp hg).1
    rcases hforward with rfl | ⟨groupOp, groupReports, hcall, hquiet, haccepted⟩
    · rw [changes_self]
      exact ⟨hkept.later (h.registered _ hmem), fun _ hnone => absurd hnone not_mem_nil⟩
    · have hchanges : changes groupReports g g' = changes [] g g' := by
        rw [changes, changes, hquiet]
        rfl
      rw [← hchanges]
      refine hkept.call (h.registered g hmem) (fun msg pass heq => ?_) (fun event hevent => ?_) hcall
      · refine ⟨hub.queue.groups.keys, mem_append_right _ ?_, mem_map_of_mem hmem⟩
        rw [← hevents]
        exact mem_append_left _ (mem_filterMap.mpr ⟨_, haccepted msg pass heq, rfl⟩)
      · rw [← hevents]
        refine mem_append_right _ (mem_flatMap.mpr ⟨g, hmem, ?_⟩)
        rw [hchanges] at hevent
        rw [hafter]
        exact hevent
  refine ⟨fun g' hg' => ?_, fun g hg => hkept.later (h.detached g hg),
    h.told_later hkept fun event hnew => ?_⟩
  · have hfound : q.groups.find? g'.name = some g' := find?_eq_some_iff.mpr ⟨hg', rfl⟩
    rcases hforwards g'.name with ⟨_, hnone⟩ | ⟨g, after, hfind, hforward, hafter⟩
    · rw [hnone] at hfound
      cases hfound
    · rw [hfound] at hafter
      cases hafter
      rw [hforward.name] at hfind hfound
      exact (hcall hfind hforward hfound).1
  · rw [← hevents, mem_append, groupChanges, mem_flatMap] at hnew
    rcases hnew with hreport | ⟨g, hg, hchange⟩
    · obtain ⟨_, _, hreported⟩ := mem_filterMap.mp hreport
      exact hkept.own hreported
    · have hfind : hub.queue.groups.find? g.name = some g :=
        find?_eq_some_iff.mpr ⟨hg, rfl⟩
      rcases hforwards g.name with ⟨hnone, _⟩ | ⟨before, after, hbefore, hforward, hafter⟩
      · rw [hfind] at hnone
        cases hnone
      · rw [hfind] at hbefore
        cases hbefore
        rw [hafter] at hchange
        exact (hcall hfind hforward hafter).2 event hchange

theorem Each.getOrCreateGroup (group : String) (h : Each holds told history hub)
    (hkept : Kept holds told) :
    Each holds told history { hub with queue := hub.queue.getOrCreateGroup group } := by
  refine ⟨fun g hg => ?_, h.detached, h.told⟩
  unfold Queue.getOrCreateGroup at hg
  split at hg
  · exact h.registered g hg
  · rcases mem_entries_insert.mp hg with ⟨hold, _⟩ | rfl
    · exact h.registered g hold
    · exact hkept.new group hub.queue.name

theorem Each.removeGroup (group : String) (h : Each holds told history hub) :
    Each holds told history ⟨hub.queue.removeGroup group,
      hub.detached ++ (hub.queue.groups.find? group).toList⟩ := by
  refine ⟨fun g hg => ?_, fun g hg => ?_, h.told⟩
  · exact h.registered g (mem_of_mem_filter hg)
  · rcases mem_append.mp hg with hold | hnew
    · exact h.detached g hold
    · exact h.registered g (find?_eq_some_iff.mp (Option.mem_toList.mp hnew)).1

theorem Each.step {guard : Op → Prop} (h : Each holds told history hub) (hkept : Kept holds told)
    (step : Step guard history hub events hub') : Each holds told (history ++ events) hub' := by
  cases step with
  | call op _ hfans happly =>
    cases op with
    | own op =>
      simp only [apply, Go.bind_eq_ok] at happly
      obtain ⟨⟨q, reports⟩, hcall, hret⟩ := happly
      cases hret
      exact h.own hkept hcall rfl
    | getOrCreateGroup group =>
      cases happly
      rw [append_nil]
      exact h.getOrCreateGroup group hkept
    | removeGroup group =>
      cases happly
      rw [append_nil]
      exact h.removeGroup group
    | inGroup group op =>
      simp only [apply] at happly
      split at happly
      · cases happly
        rwa [append_nil]
      · rename_i g hfind
        simp only [Go.bind_eq_ok] at happly
        obtain ⟨⟨g', _⟩, hcall, hret⟩ := happly
        cases hret
        have hmem := (find?_eq_some_iff.mp hfind).1
        obtain ⟨hafter, htold⟩ := hkept.call (h.registered g hmem)
          (fun _ _ heq => by cases heq; cases hfans) (fun _ hevent => hevent) hcall
        refine ⟨fun other hother => ?_, fun other hother => hkept.later (h.detached other hother),
          h.told_later hkept htold⟩
        rcases mem_entries_insert.mp hother with ⟨hold, _⟩ | rfl
        · exact hkept.later (h.registered other hold)
        · exact hafter
    | inDetached idx op =>
      simp only [apply] at happly
      split at happly
      · cases happly
        rwa [append_nil]
      · rename_i g hfind
        simp only [Go.bind_eq_ok] at happly
        obtain ⟨⟨g', _⟩, hcall, hret⟩ := happly
        cases hret
        obtain ⟨hafter, htold⟩ := hkept.call (h.detached g (mem_of_getElem? hfind))
          (fun _ _ heq => by cases heq; cases hfans) (fun _ hevent => hevent) hcall
        refine ⟨fun other hother => hkept.later (h.registered other hother), fun other hother => ?_,
          h.told_later hkept htold⟩
        rcases mem_or_eq_of_mem_set hother with hold | rfl
        · exact hkept.later (h.detached other hold)
        · exact hafter

theorem Runs.each {guard : Op → Prop} (hkept : Kept holds told)
    (hstart : Each holds told [] start) (run : Runs guard start history hub) :
    Each holds told history hub :=
  run.invariant (Each holds told) hstart fun h step => h.step hkept step

end Each

def Copy (history : List Event) (group : String) (body : Body) : Prop :=
  ∃ msg, FannedOut history group msg ∧ body = (ConsumerGroup.clone msg).body

theorem Copy.later {body : Body} (h : Copy history group body) :
    Copy (history ++ events) group body := by
  have ⟨msg, ⟨groups, haccepted, hgroup⟩, hbody⟩ := h
  exact ⟨msg, ⟨groups, mem_append_left _ haccepted, hgroup⟩, hbody⟩

/-- No object is written to while a send of it is unread. -/
def Untouched (history : List Event) : Prop :=
  ∀ group unread, .assigned group unread ∈ history → unread = []

/-- A copy, but for the queue that may have been written to it. -/
structure Known (history : List Event) (group : String) (body : Body) : Prop where
  renamed : ∃ queue, Copy history group { body with queue := queue }
  copy : Untouched history → Copy history group body

theorem Copy.known {body : Body} (h : Copy history group body) : Known history group body :=
  ⟨⟨body.queue, h⟩, fun _ => h⟩

theorem Known.later {body : Body} (h : Known history group body) :
    Known (history ++ events) group body := by
  obtain ⟨queue, hcopy⟩ := h.renamed
  refine ⟨⟨queue, hcopy.later⟩, fun huntouched => Copy.later (h.copy fun group unread hmem => ?_)⟩
  exact huntouched group unread (mem_append_left _ hmem)

structure Stock (history : List Event) (g : ConsumerGroup) : Prop where
  holds : g.Holds (Copy history g.name)
  unread : ∀ send ∈ g.unread, Known history g.name send.msg.body

theorem stock_kept : Kept Stock fun history event => ∀ group send, event = .delivered group send →
    Known history group send.msg.body where
  later hg := ⟨hg.holds.mono fun _ hcopy => hcopy.later, fun send hsend => (hg.unread send hsend).later⟩
  toldLater htold group send heq := (htold group send heq).later
  own := by
    rintro _ _ reported _ hreport _ _ rfl
    cases reported <;> cases hreport
  new _ _ := ⟨⟨fun _ h => absurd h not_mem_nil, fun _ h => absurd h not_mem_nil⟩,
    fun _ h => absurd h not_mem_nil⟩
  call := by
    intro history events op reports g g' hg hop hevents hcall
    have hholds : g.Holds (Copy (history ++ events) g.name) := hg.holds.mono fun _ hcopy => hcopy.later
    have hunread : ∀ send ∈ g.unread, Known (history ++ events) g.name send.msg.body :=
      fun send hsend => (hg.unread send hsend).later
    obtain ⟨hafter, hrecord, hsends⟩ :=
      apply_holds (fun msg pass heq => ⟨msg, hop msg pass heq, rfl⟩) hholds hcall
    obtain ⟨hname, _, hleft⟩ := Prod.mk.inj hrecord |>.imp_right Prod.mk.inj
    obtain ⟨rfl, _⟩ := apply_ok hcall
    -- an assignment among the reports names no unread send, or any queue will do
    have hassign : (∀ unread, .assigned unread ∈ (g.effect op).reports → unread = []) ∨
        ∀ body queue, Known (history ++ events) g.name body →
          Known (history ++ events) g.name { body with queue := queue } := by
      by_cases huntouched : Untouched (history ++ events)
      · refine .inl fun unread hmem => huntouched g.name unread (mem_append_right _ (hevents _ ?_))
        exact mem_append_right _ (mem_filterMap.mpr ⟨_, hmem, rfl⟩)
      · exact .inr fun body queue hbody => ⟨hbody.renamed, fun h => absurd h huntouched⟩
    refine ⟨⟨hname ▸ hafter, fun send hsend => ?_⟩, ?_⟩
    · rw [hname]
      rw [hleft] at hsend
      rcases mem_append.mp hsend with hold | hnew
      · exact unreadBy_copies hunread hassign send hold
      · exact (hsends send hnew).known
    · rintro _ hmem group send rfl
      obtain ⟨hgroup, hread⟩ := delivered_mem_changes hmem
      rw [hgroup]
      exact hunread send (mem_unread_of_read hread)

/-- What a group delivers is what a consumer of the queue would be sent, and a key
keeps its member as long as the member stays. -/
structure DeliversPublished (history : List Event) : Prop where
  carries : ∀ group send, .delivered group send ∈ history →
    ∃ msg, FannedOut history group msg ∧ send.msg.body = (Queue.cloneMessage msg).body
  sticks : ∀ before between after group first second one other,
    history = before ++ .groupSent group first :: between ++ .groupSent group second :: after →
    FannedOut history group one → one.id = first.msg.id →
    FannedOut history group other → other.id = second.msg.id →
    one.orderingKey ≠ "" → other.orderingKey = one.orderingKey →
    .left group (first.memberID, first.ch) ∉ between →
    (second.memberID, second.ch) = (first.memberID, first.ch)

/-- Groups deliver what was published in every run that gives them no ordering key and in
which no object is written to while a send of it is unread. In any run a delivery differs
from the published message in the key and the queue, and in nothing else. -/
theorem groups_deliver_published {name : String} (run : Runs anyCall (new name) history hub) :
    ((∀ msg groups, .accepted msg groups ∈ history → groups ≠ [] → msg.orderingKey = "") →
      Untouched history → DeliversPublished history) ∧
    ∀ group send, .delivered group send ∈ history → ∃ msg, FannedOut history group msg ∧
      send.msg.body =
        { (Queue.cloneMessage msg).body with queue := send.msg.queue, orderingKey := "" } ∧
      (send.msg.body = (Queue.cloneMessage msg).body ↔
        msg.orderingKey = "" ∧ send.msg.queue = msg.queue) := by
  have heach : Each Stock _ history hub := run.each stock_kept
    ⟨fun _ h => absurd h not_mem_nil, fun _ h => absurd h not_mem_nil, fun _ h => absurd h not_mem_nil⟩
  constructor
  · intro hunkeyed huntouched
    have hempty {group : String} {msg : Message} (h : FannedOut history group msg) :
        msg.orderingKey = "" := by
      obtain ⟨groups, haccepted, hgroup⟩ := h
      exact hunkeyed msg groups haccepted (List.ne_nil_of_mem hgroup)
    constructor
    · intro group send hsend
      obtain ⟨msg, hfanned, hbody⟩ := (heach.told _ hsend group send rfl).copy huntouched
      refine ⟨msg, hfanned, ?_⟩
      rw [hbody, ConsumerGroup.clone_body, ← hempty hfanned]
      rfl
    · intro _ _ _ _ _ _ _ _ _ hfanned _ _ _ hkey
      exact absurd (hempty hfanned) hkey
  · intro group send hsend
    obtain ⟨queue, msg, hfanned, hbody⟩ := (heach.told _ hsend group send rfl).renamed
    have hsame : send.msg.body =
        { (Queue.cloneMessage msg).body with queue := send.msg.queue, orderingKey := "" } :=
      congrArg (fun body : Body => { body with queue := send.msg.queue }) hbody
    refine ⟨msg, hfanned, hsame, ?_⟩
    rw [hsame]
    constructor
    · intro heq
      exact ⟨(congrArg Body.orderingKey heq).symm, congrArg Body.queue heq⟩
    · rintro ⟨hkey, hqueue⟩
      rw [hqueue, ← hkey]
      rfl

private def keyedJob (customer id : String) : Message :=
  { ConsumerGroup.job id with orderingKey := customer }

private def copyOf (customer id : String) (object : Nat) : GroupMessage :=
  ⟨ConsumerGroup.clone (keyedJob customer id), object⟩

private theorem play_anyCall {ops : List Op} (hops : ops.all Op.fansOut = true)
    (h : play ops (new "orders") = .ok (events, hub)) : Runs anyCall (new "orders") events hub :=
  play_runs .start (fun op hop => ⟨trivial, all_eq_true.mp hops op hop⟩) h

private def opening (customer : String) : List Op :=
  [.getOrCreateGroup "workers", .inGroup "workers" (.addMember "x" 30 0 ⟨0, []⟩),
    .inGroup "workers" (.addMember "y" 30 0 ⟨0, []⟩),
    .own (.enqueue (keyedJob customer "a") Queue.quiet)]

private def rejection : List Op :=
  [.inGroup "workers" (.nack "a" false 5 .dlq none 32 ⟨32, []⟩),
    .inGroup "workers" (.use (.assign 0 "orders.dlq"))]

/-- The order is read before it is rejected. -/
theorem groups_deliver_published_two_members :
    ∃ history hub, Runs anyCall (new "orders") history hub ∧ DeliversPublished history ∧
      .delivered "workers" ⟨0, "x", copyOf "" "a" 0⟩ ∈ history ∧ .assigned "workers" [] ∈ history := by
  have hplay : ∃ hub, play (opening "" ++ [.inGroup "workers" (.use (.read 0))] ++ rejection)
      (new "orders") = .ok ([.accepted (keyedJob "" "a") ["workers"],
        .groupSent "workers" ⟨0, "x", copyOf "" "a" 0⟩,
        .delivered "workers" ⟨0, "x", copyOf "" "a" 0⟩, .assigned "workers" []], hub) := ⟨_, rfl⟩
  obtain ⟨hub, hplay⟩ := hplay
  have run := play_anyCall rfl hplay
  refine ⟨_, hub, run, (groups_deliver_published run).1 ?_ ?_, by simp, by simp⟩
  · intro msg groups haccepted _
    simp only [mem_cons, reduceCtorEq, Event.accepted.injEq, not_mem_nil, or_false] at haccepted
    rw [haccepted.1]
    rfl
  · intro group unread hassigned
    simp only [mem_cons, reduceCtorEq, Event.assigned.injEq, not_mem_nil, or_false,
      false_or] at hassigned
    exact hassigned.2

private def differs (body : Body) : Event → Bool
  | .accepted msg _ => body ≠ (Queue.cloneMessage msg).body
  | _ => true

private def unkeyed : Event → Bool
  | .accepted msg _ => msg.orderingKey = ""
  | _ => true

private theorem not_deliversPublished (hsend : .delivered group send ∈ history)
    (h : history.all (differs send.msg.body) = true) : ¬DeliversPublished history := by
  intro hdelivers
  obtain ⟨msg, ⟨groups, haccepted, _⟩, hbody⟩ := hdelivers.carries group send hsend
  exact of_decide_eq_true (all_eq_true.mp h _ haccepted) hbody

/-- Two orders of one customer go to two members, and neither says whose it is. An order
without a key is sent to a member, and to the other one when the lease runs out; that one
rejects it, and the first, who has yet to read it, reads the queue it was rejected to. -/
theorem group_alters_messages :
    (∃ history hub, Runs anyCall (new "orders") history hub ∧ ¬DeliversPublished history ∧
      .delivered "workers" ⟨0, "x", copyOf "customer" "a" 0⟩ ∈ history ∧
      .delivered "workers" ⟨1, "y", copyOf "customer" "b" 1⟩ ∈ history ∧
      (copyOf "customer" "a" 0).orderingKey = "") ∧
    ∃ history hub, Runs anyCall (new "orders") history hub ∧ ¬DeliversPublished history ∧
      (∀ msg groups, .accepted msg groups ∈ history → msg.orderingKey = "") ∧
      .delivered "workers" ⟨0, "x", { copyOf "" "a" 0 with queue := "orders.dlq" }⟩ ∈ history := by
  constructor
  · have hplay : ∃ history hub, play (opening "customer" ++
        [.own (.enqueue (keyedJob "customer" "b") Queue.quiet), .inGroup "workers" (.use (.read 0)),
          .inGroup "workers" (.use (.read 1))]) (new "orders") = .ok (history, hub) ∧
        .delivered "workers" ⟨0, "x", copyOf "customer" "a" 0⟩ ∈ history ∧
        .delivered "workers" ⟨1, "y", copyOf "customer" "b" 1⟩ ∈ history ∧
        history.all (differs (copyOf "customer" "a" 0).body) = true :=
      ⟨_, _, rfl, by decide, by decide, by decide⟩
    obtain ⟨history, hub, hplay, hx, hy, hdiffers⟩ := hplay
    exact ⟨history, hub, play_anyCall rfl hplay, not_deliversPublished hx hdiffers, hx, hy, rfl⟩
  · have hplay : ∃ history hub, play (opening "" ++
        [.inGroup "workers" (.requeueExpired ⟨31, [], ⟨31, []⟩⟩), .inGroup "workers" (.use (.read 1))] ++
        rejection ++ [.inGroup "workers" (.use (.read 0))]) (new "orders") = .ok (history, hub) ∧
        .delivered "workers" ⟨0, "x", { copyOf "" "a" 0 with queue := "orders.dlq" }⟩ ∈ history ∧
        history.all (differs { (copyOf "" "a" 0).body with queue := "orders.dlq" }) = true ∧
        history.all unkeyed = true := ⟨_, _, rfl, by decide, by decide, by decide⟩
    obtain ⟨history, hub, hplay, hx, hdiffers, hunkeyed⟩ := hplay
    exact ⟨history, hub, play_anyCall rfl hplay, not_deliversPublished hx hdiffers,
      fun msg groups h => of_decide_eq_true (all_eq_true.mp hunkeyed _ h), hx⟩

end Hub
end QwerQ
