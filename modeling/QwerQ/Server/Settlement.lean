import QwerQ.Group.Delivery
import QwerQ.Replicator
import QwerQ.Server.Registry

/-! Settling a message that a group has delivered. On a single node an ack or a nack
names the group; the log of a cluster and an extension of the visibility time do not,
so that they act on the queue's own ledger. -/
namespace QwerQ
open Process KeyedMap World

namespace ConsumerGroup
variable {g g' : ConsumerGroup} {id : String} {pass : Pass} {now : Time} {entry : InFlightEntry}
  {requeue : Bool} {result : NackResult} {verdict : Verdict}

def Acked (id : String) (pass : Pass) (g g' : ConsumerGroup) : Prop :=
  tryDeliver pass { g with inFlight := g.inFlight.erase id } = .ok g'

def Nacked (entry : InFlightEntry) (verdict : Verdict) (now : Time) (pass : Pass)
    (g g' : ConsumerGroup) : Prop :=
  match verdict with
  | .requeue => tryDeliver pass { g with
      inFlight := g.inFlight.erase entry.msg.id
      messages := g.messages ++ [{ entry.msg with visibleAt := now }] } = .ok g'
  | .toDLQ | .drop => g' = { g with inFlight := g.inFlight.erase entry.msg.id }

def extended (entry : InFlightEntry) (deadline : Time) (g : ConsumerGroup) : ConsumerGroup :=
  { g with inFlight := g.inFlight.insert ⟨{ entry.msg with visibleAt := deadline }, entry.memberID⟩ }

theorem Acked.name (h : Acked id pass g g') : g'.name = g.name := by
  have hsame := tryDeliver_sameRoster h
  exact hsame.name

theorem Nacked.name
    (h : Nacked entry verdict now pass g g') : g'.name = g.name := by
  cases verdict with
  | requeue =>
    have hsame := tryDeliver_sameRoster h
    exact hsame.name
  | toDLQ | drop =>
    cases h
    rfl

theorem erase_inFlight_ne (h : g.inFlight.find? id = some entry) :
    g.inFlight.erase id ≠ g.inFlight := by
  intro heq
  have hnone := find?_erase_self g.inFlight id
  rw [heq, h] at hnone
  cases hnone

theorem not_acked (h : g.inFlight.find? id = some entry) :
    ¬ Acked id pass g g := by
  intro hacked
  rcases tryDeliver_sends hacked with hsame | hmore
  · exact erase_inFlight_ne h (congrArg inFlight hsame).symm
  · exact Nat.lt_irrefl _ hmore

theorem not_nacked
    (h : g.inFlight.find? entry.msg.id = some entry) : ¬ Nacked entry verdict now pass g g := by
  intro hnacked
  cases verdict with
  | requeue =>
    rcases tryDeliver_sends hnacked with hsame | hmore
    · exact erase_inFlight_ne h (congrArg inFlight hsame).symm
    · exact Nat.lt_irrefl _ hmore
  | toDLQ | drop => exact erase_inFlight_ne h (congrArg inFlight hnacked).symm

theorem ackWithHook_acked {hook : Hook σ} {s s' : σ}
    (h : g.ackWithHook id hook pass s = .ok ((g', s'), (true, none))) : Acked id pass g g' := by
  cases ackWithHook_cases h with
  | settled _ _ hpass => exact hpass

theorem nackWithHooks_nacked {maxRetries : UInt32} {policy : FailurePolicy}
    {hook : Hook σ} {s s' : σ}
    (hentry : g.inFlight.find? id = some entry)
    (h : g.nackWithHooks id requeue maxRetries policy hook now pass s =
      .ok ((g', s'), (result, none))) :
    Nacked entry (nackVerdict policy maxRetries requeue entry.msg.attempt) now pass g g' := by
  have hid := (find?_eq_some_iff.mp hentry).2
  have houtcome := nackWithHooks_cases h
  rw [hentry, Option.map_some] at houtcome
  cases houtcome with
  | missing hnone => cases hnone
  | toDLQ hmsg hverdict =>
    cases hmsg
    rw [hverdict, Nacked, hid]
  | dropped hmsg hverdict _ =>
    cases hmsg
    rw [hverdict, Nacked, hid]
  | requeued hmsg hverdict _ hpass =>
    cases hmsg
    rw [objectOf_eq hentry] at hpass
    rw [hverdict, Nacked, hid]
    exact hpass

end ConsumerGroup

namespace Queue

/-- One group has changed; the queue's own messages in flight and the other groups
have not. -/
structure OnlyGroup (group : String) (g' : ConsumerGroup) (q q' : Queue) : Prop where
  changed : q'.groups.find? group = some g'
  inFlight : q'.inFlight = q.inFlight
  others : ∀ other, other ≠ group → q'.groups.find? other = q.groups.find? other

variable {group : String}

theorem onlyGroup_insert (hname : g'.name = group) (q : Queue) :
    OnlyGroup group g' q { q with groups := q.groups.insert g' } := by
  refine ⟨?_, rfl, fun other hne => ?_⟩
  · rw [← hname]
    exact find?_insert_self _ g'
  · exact find?_insert_of_ne _ (hname ▸ hne)

end Queue

section Handlers
variable {w : World} {name group id : String} {q : Queue} {g : ConsumerGroup}

theorem ensures_lockedGroup {label : Queue → Disk → Label}
    {body : Queue → ConsumerGroup → Disk → Go ((ConsumerGroup × Disk) × α)}
    {post : Option α → World → Prop} (hq : w.queue? name = some q)
    (hg : q.groups.find? group = some g)
    (h : ∀ g' disk value, body q g w.disk = .ok ((g', disk), value) →
      post (some value) { w.setQueue { q with groups := q.groups.insert g' } with disk := disk }) :
    (lockedGroup (some name) group label body).Ensures w post := by
  refine ensures_locked_of hq fun q' disk result hbody => ?_
  rcases Queue.inGroup_cases hbody with ⟨hnone, _⟩ | ⟨g₀, g', value, hfind, hok, rfl, rfl⟩
  · rw [hg] at hnone
    cases hnone
  · cases hg.symm.trans hfind
    exact h g' disk value hok

theorem queue?_inGroup (disk : Disk) (hq : w.queue? name = some q) :
    ({ w.setQueue { q with groups := q.groups.insert g' } with disk := disk } : World).queue? name =
      some { q with groups := q.groups.insert g' } := by
  have hname : q.name = name := queue?_name hq
  rw [← hname]
  exact queue?_setQueue_self { q with groups := q.groups.insert g' } w

theorem handleAck_inGroup {pass : Pass} (hgroup : group ≠ "") (hq : w.queue? name = some q)
    (hg : q.groups.find? group = some g) :
    (handleAck id name group pass).Ensures w fun result w' => result = (true, none) →
      ∃ q' g', w'.queue? name = some q' ∧ g.Acked id pass g' ∧ q.OnlyGroup group g' q' := by
  rw [handleAck, ensures_found hq, if_pos hgroup, ensures_bind]
  refine ensures_lockedGroup hq hg fun g' disk value hack => ?_
  change value = (true, none) → _
  rintro rfl
  have hacked := ConsumerGroup.ackWithHook_acked hack
  have hname : g'.name = group := hacked.name.trans (find?_eq_some_iff.mp hg).2
  exact ⟨_, g', queue?_inGroup disk hq, hacked, Queue.onlyGroup_insert hname q⟩

theorem moveToDLQ_leaves (msg : Message) (env : NackEnv) (w : World) :
    (moveToDLQ name msg env).Ensures w fun _ w' => w'.queue? name = w.queue? name := by
  simp only [moveToDLQ, saveMessage, deleteMessage, ensures_bind, ensures_getOrCreateQueue,
    ensures_lockedPure, ensures_write]
  intro ptr q q' moved hptr hq henqueue
  simp only [Go.bind_eq_ok, Go.pure_eq] at henqueue
  obtain ⟨⟨after, err⟩, hok, hret⟩ := henqueue
  cases hret
  have hdlq : after.name = dlqName name := by
    rw [Queue.enqueue_name hok, queue?_name hq]
    exact ptr_eq hptr
  have hne : name ≠ after.name := hdlq ▸ (dlqName_ne name).symm
  exact (queue?_setQueue_of_ne _ hne).trans (createQueue_others (dlqName_ne name).symm)

variable {env : NackEnv} {result : NackResult} {entry : InFlightEntry} {requeue : Bool}

theorem settleNack_leaves {err : Option Err} (w : World) :
    (settleNack name env result err).Ensures w fun outcome w' =>
      w'.queue? name = w.queue? name ∧ (outcome = (true, none) → err = none) := by
  unfold settleNack
  cases err with
  | some err => exact ⟨rfl, fun heq => by cases heq⟩
  | none =>
    simp only
    split
    · exact ⟨rfl, fun heq => by cases heq⟩
    split
    · split
      · simp only [ensures_bind]
        exact (moveToDLQ_leaves _ env w).mono fun _ w' h => ⟨h, fun _ => trivial⟩
      · exact ⟨rfl, fun _ => trivial⟩
    · exact ⟨rfl, fun _ => trivial⟩

theorem handleNack_inGroup
    (hgroup : group ≠ "") (hq : w.queue? name = some q) (hg : q.groups.find? group = some g)
    (hentry : g.inFlight.find? id = some entry) :
    (handleNack id name group requeue env).Ensures w fun result w' => result = (true, none) →
      ∃ q' g', w'.queue? name = some q' ∧
        g.Nacked entry (nackVerdict q.failurePolicy q.maxRetries requeue entry.msg.attempt) env.now
          env.pass g' ∧ q.OnlyGroup group g' q' := by
  rw [handleNack, ensures_found hq, if_pos hgroup, ensures_bind]
  refine ensures_lockedGroup hq hg fun g' disk value hnack => ?_
  refine (settleNack_leaves _).mono fun outcome w' hleaves hdone => ?_
  obtain ⟨hleft, hnone⟩ := hleaves
  obtain ⟨result, err⟩ := value
  cases hnone hdone
  have hnacked := ConsumerGroup.nackWithHooks_nacked hentry hnack
  have hname : g'.name = group := hnacked.name.trans (find?_eq_some_iff.mp hg).2
  exact ⟨_, g', hleft.trans (queue?_inGroup disk hq), hnacked, Queue.onlyGroup_insert hname q⟩

theorem returns_settled {label : Queue → Label} {body : Queue → Go (Queue × Unit)}
    {post : Unit → World → Prop} (hq : w.queue? name = some q)
    (hbody : ∃ q', body q = .ok (q', ()) ∧ Queue.StaysRouted q q')
    (hpost : ∀ w', (∃ q', w'.queue? name = some q' ∧ q'.groups = q.groups) → post () w') :
    (lockedPure (some name) label body).Returns w post := by
  have ⟨q', hok, hstays⟩ := hbody
  rw [returns_lockedPure hq]
  refine ⟨q', (), hok, hpost _ ⟨q', ?_, hstays.groups⟩⟩
  rw [← queue?_name hq, ← hstays.name]
  exact queue?_setQueue_self q' w

theorem applyAck_leaves_groups {env : ApplyEnv} (hq : w.queue? name = some q)
    (hrouted : q.Routed) :
    (FSM.apply (.ack name id) env).Returns w fun resp w' => resp.error = none ∧
      ∃ q', w'.queue? name = some q' ∧ q'.groups = q.groups := by
  rw [FSM.apply, FSM.applyAck, returns_found hq]
  simp only [deleteMessage, returns_bind, returns_write]
  obtain ⟨q', s', result, hack, hstays⟩ := Queue.ackWithHook_routed id Hook.none env.enqueue.pass ()
    hrouted
  refine returns_settled hq ⟨q', by simp only [hack]; rfl, hstays⟩ fun w' hgroups => ?_
  exact ⟨rfl, hgroups⟩

theorem applyNack_leaves_groups {env : ApplyEnv} (hq : w.queue? name = some q)
    (hrouted : q.Routed) :
    (FSM.apply (.nack name id requeue) env).Returns w fun resp w' => resp.error = none ∧
      ∃ q', w'.queue? name = some q' ∧ q'.groups = q.groups := by
  rw [FSM.apply, FSM.applyNack, returns_found hq, returns_bind]
  have ⟨q', s', result, hnack, hstays⟩ := Queue.nackWithHooks_routed id requeue Hook.none
    Hook.none env.now env.enqueue.pass () hrouted
  refine returns_settled hq ⟨q', by simp only [hnack]; rfl, hstays⟩ fun w' hgroups => ?_
  exact ⟨rfl, hgroups⟩

theorem handleExtendVisibility_leaves_groups {extensionSeconds : UInt32} {now : Time}
    (hq : w.queue? name = some q) :
    (handleExtendVisibility id name extensionSeconds now).Ensures w fun _ w' =>
      ∃ q', w'.queue? name = some q' ∧ q'.groups = q.groups := by
  rw [handleExtendVisibility, ensures_found hq, ensures_bind]
  refine ensures_lockedPure_of hq fun q' deadline hextend => ?_
  have hframe : q'.groups = q.groups ∧ q'.name = q.name := by
    unfold Queue.extendVisibility at hextend
    split at hextend <;> (cases hextend; exact ⟨rfl, rfl⟩)
  have hfiled : (w.setQueue q').queue? name = some q' := by
    rw [← queue?_name hq, ← hframe.2]
    exact queue?_setQueue_self q' w
  split <;> exact ⟨q', hfiled, hframe.1⟩

end Handlers

namespace Server
variable {w : World} {q : Queue} {g : ConsumerGroup} {entry : InFlightEntry} {id : String}
  {state : ConnState} {replicator : Option Replicator}

inductive Settling where
  | ack
  | nack
  | extendVisibility
  deriving DecidableEq, Repr

/-- The request acts on the entry of the connection's group, and on no other ledger
of the queue: an ack or a nack if it succeeds, an extension in any case. -/
def ActsOnGroup (replicator : Option Replicator) (state : ConnState) (q : Queue)
    (g : ConsumerGroup) (entry : InFlightEntry) (w : World) : Settling → Prop
  | .ack => ∀ env, (handleAckWith replicator entry.msg.id env state).Ensures w fun response w' =>
      response = none → ∃ q' g', w'.queue? state.queueName = some q' ∧
        g.Acked entry.msg.id env.enqueue.pass g' ∧ q.OnlyGroup state.groupName g' q'
  | .nack => ∀ requeue env, (handleNackWith replicator entry.msg.id requeue env state).Ensures w
      fun response w' => response = none → ∃ q' g', w'.queue? state.queueName = some q' ∧
        g.Nacked entry (nackVerdict q.failurePolicy q.maxRetries requeue entry.msg.attempt) env.now
          env.pass g' ∧ q.OnlyGroup state.groupName g' q'
  | .extendVisibility => ∀ extensionSeconds now,
      (handleExtendVisibility entry.msg.id extensionSeconds now state).Returns w fun response w' =>
        ∃ deadline q', response = .ok (unixMilli deadline) ∧
          deadline = now + extensionSeconds.toNat * nanosecondsPerSecond ∧
          w'.queue? state.queueName = some q' ∧
          q.OnlyGroup state.groupName (g.extended entry deadline) q'

/-- The request names the group on its way to the ledger: not through the log, and
an ack not in stream mode. -/
def namesGroup (replicator : Option Replicator) (state : ConnState) : Settling → Prop
  | .ack => state.streamMode = false ∧ ∀ r, replicator = some r → r.commits = false
  | .nack => ∀ r, replicator = some r → r.commits = false
  | .extendVisibility => False

variable {group : String} {cmd : Command} {env : ApplyEnv}

theorem not_acts_of_same {program : Prog (Option Response)} {acted : ConsumerGroup → Prop}
    {name : String} (hg : q.groups.find? group = some g) (hnot : ¬ acted g)
    (hsame : program.Returns w fun response w' => response = none ∧
      ∃ q', w'.queue? name = some q' ∧ q'.groups = q.groups) :
    ¬ program.Ensures w fun response w' => response = none → ∃ q' g',
      w'.queue? name = some q' ∧ acted g' ∧ q.OnlyGroup group g' q' := by
  intro hacts
  have ⟨response, w', hrun, hnone, q', hq', hgroups⟩ := returns_iff.mp hsame
  have ⟨q₁, g', hq₁, hacted, honly⟩ := ensures_iff.mp hacts response w' hrun hnone
  cases hq'.symm.trans hq₁
  have hkept := honly.changed
  rw [hgroups, hg] at hkept
  cases hkept
  exact hnot hacted

theorem replicated_returns {r : Replicator} {post : World → Prop}
    (hcommits : r.commits = true)
    (happly : (FSM.apply cmd env).Returns w fun resp w' => resp.error = none ∧ post w') :
    (r.apply cmd env).Returns w fun answer w' => (∃ resp, answer = .ok resp) ∧ post w' := by
  rw [Replicator.commits, Bool.and_eq_true, Option.isNone_iff_eq_none] at hcommits
  simp only [Replicator.apply, hcommits.2, returns_bind]
  refine happly.mono fun resp w' happlied => ?_
  rw [happlied.1]
  exact ⟨⟨resp, rfl⟩, happlied.2⟩

theorem replicated_refused {r : Replicator}
    (hcommits : r.commits = false) (hleader : r.isLeader = true) :
    (r.apply cmd env).Ensures w fun answer _ => ∃ text, answer = .error text := by
  rw [Replicator.commits, hleader, Bool.true_and] at hcommits
  cases herr : r.applyErr with
  | none =>
    rw [herr] at hcommits
    cases hcommits
  | some text =>
    simp only [Replicator.apply, herr]
    exact ⟨text, rfl⟩

theorem eq_of_settled {result : Bool × Option Err} (h : settled result = none) :
    result = (true, none) := by
  match result with
  | (_, some _) => cases h
  | (false, none) => cases h
  | (true, none) => rfl

section Requests
variable (hq : w.queue? state.queueName = some q)
  (hg : q.groups.find? state.groupName = some g)
  (hentry : g.inFlight.find? entry.msg.id = some entry)
include hq hg

theorem ack_acts (hgroup : state.groupName ≠ "") (hmode : state.streamMode = false)
    (hcommits : ∀ r, replicator = some r → r.commits = false) :
    ActsOnGroup replicator state q g entry w .ack := by
  intro env
  simp only [handleAckWith, hmode, Bool.false_eq_true, if_false]
  cases replicator with
  | none =>
    simp only [handleAck, hmode, Bool.false_eq_true, if_false, ensures_bind]
    refine (handleAck_inGroup hgroup hq hg).mono fun result w' hacted hnone => ?_
    exact hacted (eq_of_settled hnone)
  | some r =>
    by_cases hleader : r.isLeader = true
    · simp only [hleader, Bool.not_true, Bool.false_eq_true, if_false, Replicator.replicateAck,
        ensures_bind]
      refine (replicated_refused (hcommits r rfl) hleader).mono fun answer w' hanswer => ?_
      obtain ⟨text, rfl⟩ := hanswer
      exact nofun
    · simp only [hleader]
      exact nofun

include hentry

theorem nack_acts (hgroup : state.groupName ≠ "")
    (hcommits : ∀ r, replicator = some r → r.commits = false) :
    ActsOnGroup replicator state q g entry w .nack := by
  intro requeue env
  simp only [handleNackWith]
  cases replicator with
  | none =>
    simp only [handleNack, ensures_bind]
    refine (handleNack_inGroup hgroup hq hg hentry).mono fun result w' hacted hnone => ?_
    exact hacted (eq_of_settled hnone)
  | some r =>
    by_cases hleader : r.isLeader = true
    · simp only [hleader, Bool.not_true, Bool.false_eq_true, if_false, Replicator.replicateNack,
        ensures_bind]
      refine (replicated_refused (hcommits r rfl) hleader).mono fun answer w' hanswer => ?_
      obtain ⟨text, rfl⟩ := hanswer
      exact nofun
    · simp only [hleader]
      exact nofun

theorem ack_ignored (hmode : state.streamMode = true) :
    ¬ ActsOnGroup replicator state q g entry w .ack := by
  intro hacts
  refine not_acts_of_same hg (ConsumerGroup.not_acked hentry) ?_ (hacts ⟨0, ⟨⟨0, []⟩, fun _ => ⟨0, []⟩⟩⟩)
  simp only [handleAckWith, hmode, if_true]
  exact ⟨rfl, q, hq, rfl⟩

theorem ack_replicated {r : Replicator} (hrouted : q.Routed) (hcommits : r.commits = true) :
    ¬ ActsOnGroup (some r) state q g entry w .ack := by
  intro hacts
  by_cases hmode : state.streamMode = true
  · exact ack_ignored hq hg hentry hmode hacts
  have hleader : r.isLeader = true := (Bool.and_eq_true _ _ ▸ hcommits).1
  refine not_acts_of_same hg (ConsumerGroup.not_acked hentry) ?_ (hacts ⟨0, ⟨⟨0, []⟩, fun _ => ⟨0, []⟩⟩⟩)
  simp only [handleAckWith, hmode, hleader, Bool.not_true, Bool.false_eq_true, if_false,
    Replicator.replicateAck, returns_bind]
  refine (replicated_returns hcommits (applyAck_leaves_groups hq hrouted)).mono
    fun answer w' hanswered => ?_
  obtain ⟨⟨resp, hanswer⟩, hgroups⟩ := hanswered
  rw [hanswer]
  exact ⟨rfl, hgroups⟩

theorem nack_replicated {r : Replicator} (hrouted : q.Routed) (hcommits : r.commits = true) :
    ¬ ActsOnGroup (some r) state q g entry w .nack := by
  intro hacts
  have hleader : r.isLeader = true := (Bool.and_eq_true _ _ ▸ hcommits).1
  refine not_acts_of_same hg (ConsumerGroup.not_nacked hentry) ?_
    (hacts true ⟨0, ⟨0, []⟩, 0, ⟨⟨0, []⟩, fun _ => ⟨0, []⟩⟩⟩)
  simp only [handleNackWith, hleader, Bool.not_true, Bool.false_eq_true, if_false,
    Replicator.replicateNack, returns_bind]
  refine (replicated_returns hcommits (applyNack_leaves_groups hq hrouted)).mono
    fun answer w' hanswered => ?_
  obtain ⟨⟨resp, hanswer⟩, hgroups⟩ := hanswered
  rw [hanswer]
  exact ⟨rfl, hgroups⟩

/-- An extension never reaches the group: ask for a deadline that the entry does not have. -/
theorem extend_ignored : ¬ ActsOnGroup replicator state q g entry w .extendVisibility := by
  intro hacts
  have hleaves : (handleExtendVisibility entry.msg.id 1 entry.msg.visibleAt state).Ensures w
      fun _ w' => ∃ q', w'.queue? state.queueName = some q' ∧ q'.groups = q.groups := by
    simp only [handleExtendVisibility, ensures_bind]
    refine (handleExtendVisibility_leaves_groups hq).mono fun result w' hgroups => ?_
    split <;> exact hgroups
  obtain ⟨response, w', hrun, deadline, q', _, hdeadline, hq', honly⟩ :=
    returns_iff.mp (hacts 1 entry.msg.visibleAt)
  obtain ⟨q₁, hq₁, hgroups⟩ := ensures_iff.mp hleaves response w' hrun
  cases hq₁.symm.trans hq'
  have hkept := honly.changed
  rw [hgroups, hg, Option.some_inj] at hkept
  have hinserted : (g.extended entry deadline).inFlight.find? entry.msg.id =
      some ⟨{ entry.msg with visibleAt := deadline }, entry.memberID⟩ :=
    find?_insert_self g.inFlight
      ⟨{ entry.msg with visibleAt := deadline }, entry.memberID⟩
  rw [← hkept, hentry, Option.some_inj] at hinserted
  have hsame : entry.msg.visibleAt = deadline :=
    congrArg (fun entry : InFlightEntry => entry.msg.visibleAt) hinserted
  rw [← hsame] at hdeadline
  exact absurd (left_eq_add.mp hdeadline) (by decide)

end Requests

/-- A request acts on the ledger that delivered the message just when it names the group. -/
theorem actsOnGroup_iff (request : Settling) (hq : w.queue? state.queueName = some q)
    (hrouted : q.Routed) (hgroup : state.groupName ≠ "")
    (hg : q.groups.find? state.groupName = some g)
    (hentry : g.inFlight.find? entry.msg.id = some entry) :
    ActsOnGroup replicator state q g entry w request ↔ namesGroup replicator state request := by
  cases request with
  | ack =>
    refine ⟨fun hacts => ⟨?_, ?_⟩, fun h => ack_acts hq hg hgroup h.1 h.2⟩
    · rw [← Bool.not_eq_true]
      exact fun hmode => ack_ignored hq hg hentry hmode hacts
    · rintro r rfl
      rw [← Bool.not_eq_true]
      exact fun hcommits => ack_replicated hq hg hentry hrouted hcommits hacts
  | nack =>
    refine ⟨fun hacts => ?_, nack_acts hq hg hentry hgroup⟩
    rintro r rfl
    rw [← Bool.not_eq_true]
    exact fun hcommits => nack_replicated hq hg hentry hrouted hcommits hacts
  | extendVisibility => exact iff_of_false (extend_ignored hq hg hentry) id

private def consuming : ConnState :=
  { ConnState.new "x" with
    queueName := "orders", groupName := "workers", msgCh := some (.member "orders" "workers" 0) }

private def orderSent : World :=
  ((do
    let _ ← handleConsume ⟨"orders", 0, "workers"⟩ 0 ⟨0, []⟩ (.new "x")
    handlePublish ⟨"orders", [1], ∅, "a", "", ""⟩
      ⟨0, 0, "", 0, ⟨0, []⟩, fun _ => ⟨0, []⟩⟩ : Prog (Except Err String)).run
    (World.opened 0 fun _ => none)).2

private theorem orderSent_inFlight : ∃ q g entry, orderSent.queue? "orders" = some q ∧ q.Routed ∧
    q.groups.find? "workers" = some g ∧ g.inFlight.find? entry.msg.id = some entry := by
  have hsent : ∃ q g entry, orderSent.queue? "orders" = some q ∧ q.keyAssignments = ∅ ∧
      q.groups.find? "workers" = some g ∧ g.inFlight.find? "a" = some entry :=
    ⟨_, _, _, rfl, rfl, rfl, rfl⟩
  have ⟨q, g, entry, hq, hkeys, hg, hentry⟩ := hsent
  refine ⟨q, g, entry, hq, ?_, hg, ?_⟩
  · intro assignment hmem
    rw [hkeys] at hmem
    cases hmem
  · rw [(find?_eq_some_iff.mp hentry).2]
    exact hentry

theorem actsOnGroup_single_node : ∃ q g entry, orderSent.queue? "orders" = some q ∧
    q.groups.find? "workers" = some g ∧ g.inFlight.find? entry.msg.id = some entry ∧
    ActsOnGroup none consuming q g entry orderSent .ack ∧
    ActsOnGroup none consuming q g entry orderSent .nack := by
  have ⟨q, g, entry, hq, hrouted, hg, hentry⟩ := orderSent_inFlight
  refine ⟨q, g, entry, hq, hg, hentry, ?_, ?_⟩
  · exact (actsOnGroup_iff .ack hq hrouted (by decide) hg hentry).mpr ⟨rfl, nofun⟩
  · exact (actsOnGroup_iff .nack hq hrouted (by decide) hg hentry).mpr nofun

/-- The leader acks, and the group still has the message in flight; the same for a nack,
and an extension finds no such message on any node. -/
theorem settlement_misses_group : ∃ q g entry, orderSent.queue? "orders" = some q ∧
    q.groups.find? "workers" = some g ∧ g.inFlight.find? entry.msg.id = some entry ∧
    ¬ ActsOnGroup (some ⟨true, none⟩) consuming q g entry orderSent .ack ∧
    ¬ ActsOnGroup (some ⟨true, none⟩) consuming q g entry orderSent .nack ∧
    ¬ ActsOnGroup none consuming q g entry orderSent .extendVisibility ∧
    ((handleAckWith (some ⟨true, none⟩) "a" ⟨1, ⟨1, []⟩, fun _ => ⟨1, []⟩⟩ consuming).run
      orderSent).1 = .ok none ∧
    ((handleExtendVisibility "a" 30 1 consuming).run orderSent).1 =
      .ok (.error (.error 4 "message not found")) := by
  have ⟨q, g, entry, hq, hrouted, hg, hentry⟩ := orderSent_inFlight
  refine ⟨q, g, entry, hq, hg, hentry, ?_, ?_, ?_, rfl, rfl⟩
  · exact ack_replicated hq hg hentry hrouted rfl
  · exact nack_replicated hq hg hentry hrouted rfl
  · exact extend_ignored hq hg hentry

end Server
end QwerQ
