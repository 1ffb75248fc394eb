import QwerQ.Cluster
import QwerQ.Queue.Live
import QwerQ.Queue.Registry
import QwerQ.Library.Run

/-! One node of a cluster. What a command does to the ids that the queues hold, and
what it answers, is settled by the command and by one choice: whether a publish is
refused, or whether a settlement takes an id out, which the node decides by its own
deliveries. -/
namespace QwerQ
open Process Queue World
variable {w w' : World} {name : String}

abbrev Holdings := String → Option (Set String)

def World.holdings (w : World) : Holdings := fun name => (w.queue? name).map Queue.ids

variable {q q' : Queue} {cmd : PublishCommand} {post : Option String → World → Prop}
  {answer : FSMResponse} {op : Queue.Op} {messageID : String} {out : Bool}

theorem World.mem_liveIds {id : String} :
    id ∈ w.liveIds name ↔ id ∈ (w.holdings name).getD ∅ := by
  rw [World.liveIds, World.holdings]
  cases w.queue? name with
  | none => simp
  | some q =>
    rw [Option.map_some, Option.getD_some, ← mem_ids_iff_live]
    rfl

namespace Command

/-- What the node decides by its own state: whether a publish is refused, and whether
a settlement takes the id out of the queue. -/
def choice (cmd : Command) (w : World) : Bool :=
  match cmd with
  | .publish cmd => !cmd.stream && (w.queue? cmd.queue).any Queue.full
  | .ack queue messageID => (w.queue? queue).any (Queue.settles messageID)
  | .nack queue messageID requeue => (w.queue? queue).any (Queue.discards messageID requeue)
  | _ => false

def settled (queue messageID : String) (out : Bool) (held : Holdings) : FSMResponse × Holdings :=
  match held queue with
  | none => (FSM.failed ("queue not found: " ++ queue), held)
  | some ids =>
      (⟨none, ""⟩, Function.update held queue (some (if out then ids \ {messageID} else ids)))

def created (queue : String) (held : Holdings) : Holdings :=
  Function.update held queue (some ((held queue).getD ∅))

/-- What a command answers and does to the holdings, for each choice. -/
def next (cmd : Command) (choice : Bool) (held : Holdings) : FSMResponse × Holdings :=
  match cmd with
  | .publish cmd =>
      if cmd.stream then (⟨none, cmd.messageID⟩, held)
      else if choice then (FSM.failed Err.queueFull.message, created cmd.queue held)
      else (⟨none, cmd.messageID⟩, Function.update held cmd.queue
        (some (insert cmd.messageID ((held cmd.queue).getD ∅))))
  | .ack queue messageID => settled queue messageID choice held
  | .nack queue messageID _ => settled queue messageID choice held
  | .createQueue name => (⟨none, ""⟩, created name held)
  | .deleteQueue => (FSM.failed "delete queue not implemented", held)
  | .schemaRegister queue => (⟨none, ""⟩, created queue held)
  | .unknown type => (FSM.failed ("unknown command type: " ++ toString type), held)
  | .undecodable text => (FSM.failed text, held)

end Command

structure World.Steady (w : World) : Prop where
  calm : ∀ name q, w.queue? name = some q → q.Calm
  quiet : w.disk.Quiet

theorem World.holdings_disk (disk : Disk) (w : World) :
    ({ w with disk := disk } : World).holdings = w.holdings := rfl

theorem World.holdings_setQueue (q : Queue) (w : World) :
    (w.setQueue q).holdings = Function.update w.holdings q.name (some q.ids) := by
  funext other
  rw [Function.update_apply]
  split
  · rename_i hother
    rw [hother]
    exact congrArg (Option.map Queue.ids) (queue?_setQueue_self q w)
  · rename_i hother
    exact congrArg (Option.map Queue.ids) (queue?_setQueue_of_ne w hother)

theorem World.Steady.setQueue {disk : Disk} (h : w.Steady) (hcalm : q.Calm)
    (hquiet : disk.Quiet) : ({ w.setQueue q with disk := disk } : World).Steady where
  calm other q' hother := by
    by_cases hname : other = q.name
    · have hfound : (w.setQueue q).queue? other = some q := hname ▸ queue?_setQueue_self q w
      cases hfound.symm.trans hother
      exact hcalm
    · have hsame : (w.setQueue q).queue? other = w.queue? other := queue?_setQueue_of_ne w hname
      exact h.calm other q' (hsame.symm.trans hother)
  quiet := hquiet

structure Queue.Idle (q : Queue) : Prop extends Queue.Calm q where
  consumers : q.consumers = []
  inFlight : q.inFlight = ∅

theorem Queue.idle_new (name : String) : (Queue.new name).Idle := ⟨calm_new name, rfl, rfl⟩

structure World.Idle (w : World) : Prop where
  queues : ∀ name, (w.queueAt name).Idle
  quiet : w.disk.Quiet

theorem World.Idle.queue (h : w.Idle)
    (hq : w.queue? name = some q) : q.Idle :=
  queueAt_of_some hq ▸ h.queues name

theorem World.Idle.steady (h : w.Idle) : w.Steady :=
  ⟨fun _ _ hq => (h.queue hq).toCalm, h.quiet⟩

structure Founded (name : String) (w w' : World) : Prop where
  steady : w'.Steady
  present : w'.disk.present = w.disk.present
  queue : w'.queue? name = some (w.queueAt name)
  same : ∀ other, w'.queueAt other = w.queueAt other
  streams : w'.broker.streamQueues = w.broker.streamQueues
  holdings : w'.holdings = Command.created name w.holdings

theorem Founded.idle (h : Founded name w w') (hidle : w.Idle) : w'.Idle :=
  ⟨fun other => h.same other ▸ hidle.queues other, h.steady.quiet⟩

theorem createQueue_founds (h : w.Steady) (name : String) :
    (createQueue name w).1 = none ∧ Founded name w (createQueue name w).2 := by
  cases hq : w.queue? name with
  | some q =>
    simp only [createQueue, hq]
    refine ⟨trivial, h, rfl, by rw [queueAt_of_some hq, hq], fun _ => rfl, rfl, ?_⟩
    have hheld : w.holdings name = some q.ids := congrArg (Option.map Queue.ids) hq
    rw [Command.created, hheld, Option.getD_some, ← hheld, Function.update_eq_self]
  | none =>
    simp only [createQueue, hq, h.quiet.write_eq]
    refine ⟨trivial, h.setQueue (calm_new name) (h.quiet.stores _),
      Disk.stores_present _ _, ?_, fun other => queueAt_create hq other, rfl, ?_⟩
    · rw [World.queueAt, hq]
      exact queue?_setQueue_self (Queue.new name) w
    · have hheld : w.holdings name = none := congrArg (Option.map Queue.ids) hq
      rw [holdings_disk, holdings_setQueue, new_ids, Command.created, hheld]
      rfl

theorem getOrCreateQueue_founds (h : w.Steady)
    (hpost : ∀ w', Founded name w w' → post (some name) w') :
    (getOrCreateQueue name).Returns w post := by
  have ⟨hnone, hfounded⟩ := createQueue_founds h name
  rw [returns_getOrCreateQueue, hnone]
  exact hpost _ hfounded

/-- The node has answered, and its holdings are, as its choice makes them. -/
structure Follows (cmd : Command) (w : World) (answer : FSMResponse) (w' : World) : Prop where
  steady : w'.Steady
  present : w'.disk.present = w.disk.present
  next : cmd.next (cmd.choice w) w.holdings = (answer, w'.holdings)

theorem applyCreateQueue_founds (h : w.Steady) (name : String) :
    (FSM.applyCreateQueue name).Returns w fun answer w' =>
      answer = ⟨none, ""⟩ ∧ Founded name w w' := by
  simp only [FSM.applyCreateQueue, returns_bind]
  exact getOrCreateQueue_founds h fun w' hfounded => ⟨rfl, hfounded⟩

theorem World.Steady.write {label : Label} {change : Storage → Storage}
    {post : Option Err → World → Prop} (h : w.Steady)
    (hpost : post none { w with disk := w.disk.stores change }) :
    (write label change).Returns w post := by
  rw [returns_write, h.quiet.write_eq]
  exact hpost

theorem Queue.enqueue_calm (msg : Message) (env : Env) (h : q.Calm) :
    ∃ q' err, q.enqueue msg env = .ok (q', err) ∧ q'.Calm := by
  unfold Queue.enqueue
  split
  · exact ⟨q, _, rfl, h⟩
  · have ⟨q', _, hdirect, hcalm⟩ := enqueueDirect_calm msg env h
    exact ⟨q', none, by rw [hdirect]; rfl, hcalm⟩

theorem World.queueAt_ids (w : World) (name : String) :
    (w.queueAt name).ids = (w.holdings name).getD ∅ := by
  rw [World.holdings, World.queueAt]
  cases w.queue? name with
  | none => exact new_ids name
  | some q => rfl

theorem Command.choice_publish (w : World) (hqueue : cmd.stream = false) :
    (Command.publish cmd).choice w = (w.queueAt cmd.queue).full := by
  rw [Command.choice, hqueue, World.queueAt]
  cases w.queue? cmd.queue with
  | none => simp [Queue.new, Queue.full, defaultMaxQueueSize]
  | some q => rfl

theorem applyQueuePublish_follows (h : w.Steady) (hqueue : cmd.stream = false)
    (env : Env) : (FSM.applyQueuePublish cmd env).Returns w (Follows (.publish cmd) w) := by
  simp only [FSM.applyQueuePublish, returns_bind]
  refine getOrCreateQueue_founds h fun next hfounded => ?_
  have hcalm := hfounded.steady.calm _ _ hfounded.queue
  obtain ⟨q', err, henqueue, hcalm'⟩ := enqueue_calm (FSM.publishedMessage cmd) env hcalm
  obtain ⟨herr, hids⟩ := enqueue_ids henqueue
  have hname : q'.name = cmd.queue :=
    (enqueue_undisturbed henqueue).name.trans (queue?_name hfounded.queue)
  refine (returns_lockedPure hfounded.queue).mpr ⟨q', (err, asEnqueued _ q' err), by rw [henqueue]; rfl, ?_⟩
  have hsteady : (next.setQueue q').Steady := hfounded.steady.setQueue hcalm' hfounded.steady.quiet
  have hheld : (next.setQueue q').holdings =
      Function.update w.holdings cmd.queue (some q'.ids) := by
    rw [holdings_setQueue, hname, hfounded.holdings, Command.created, Function.update_idem]
  have hchoice := Command.choice_publish w hqueue
  rw [queueAt_ids] at hids
  by_cases hfull : (w.queueAt cmd.queue).full = true
  · rw [if_pos hfull] at herr hids
    rw [herr]
    refine ⟨hsteady, hfounded.present, ?_⟩
    simp only [Command.next, hchoice, hqueue, hfull, hheld, hids]
    rfl
  · rw [if_neg hfull] at herr hids
    rw [herr]
    simp only [saveMessage, returns_bind]
    refine hsteady.write ?_
    refine ⟨⟨hsteady.calm, hsteady.quiet.stores _⟩,
      (Disk.stores_present _ _).trans hfounded.present, ?_⟩
    rw [holdings_disk _ (next.setQueue q'), hheld, hids]
    simp only [Command.next, hchoice, hqueue, hfull]
    rfl

theorem Follows.of_queues {cmd : Command} (h : w.Steady)
    (hqueues : w'.broker.queues = w.broker.queues) (hquiet : w'.disk.Quiet)
    (hpresent : w'.disk.present = w.disk.present)
    (hnext : cmd.next (cmd.choice w) w.holdings = (answer, w.holdings)) :
    Follows cmd w answer w' := by
  have hsame (name : String) : w'.queue? name = w.queue? name := by
    rw [World.queue?, hqueues, World.queue?]
  have hheld : w'.holdings = w.holdings := by
    funext name
    rw [World.holdings, hsame, World.holdings]
  exact ⟨⟨fun name q hq => h.calm name q (hsame name ▸ hq), hquiet⟩, hpresent, hheld ▸ hnext⟩

theorem getOrCreateStreamQueue_quiet (hquiet : w.disk.Quiet)
    (hpost : ∀ w' sq, w'.stream? name = some sq → w'.broker.queues = w.broker.queues →
      w'.disk.Quiet → w'.disk.present = w.disk.present → post (some name) w') :
    (getOrCreateStreamQueue name).Returns w post := by
  rw [returns_getOrCreateStreamQueue]
  cases hsq : w.stream? name with
  | some sq =>
    simp only [createStreamQueue, hsq]
    exact hpost w sq hsq rfl hquiet rfl
  | none =>
    rw [createStreamQueue_quiet hquiet hsq]
    exact hpost _ _ (stream?_setStream_self _ w) rfl (hquiet.stores _) (Disk.stores_present _ _)

theorem applyStreamPublish_follows (h : w.Steady)
    (hstream : cmd.stream = true) :
    (FSM.applyStreamPublish cmd).Returns w (Follows (.publish cmd) w) := by
  simp only [FSM.applyStreamPublish, returns_bind]
  refine getOrCreateStreamQueue_quiet h.quiet fun next sq hsq hqueues hquiet hpresent => ?_
  refine (returns_lockedStream hsq).mpr ?_
  simp only [StreamQueue.publish, hquiet.write_eq]
  exact .of_queues h hqueues (hquiet.stores _) ((Disk.stores_present _ _).trans hpresent)
    (by rw [Command.next, if_pos hstream])

theorem settlement_follows {queue : String} (h : w.Steady)
    (hq : w.queue? queue = some q) (hname : q'.name = q.name) (hcalm : q'.Calm)
    (hids : q'.ids = if out then q.ids \ {messageID} else q.ids) :
    (w.setQueue q').Steady ∧
      Command.settled queue messageID out w.holdings = (⟨none, ""⟩, (w.setQueue q').holdings) := by
  have hheld : w.holdings queue = some q.ids := congrArg (Option.map Queue.ids) hq
  refine ⟨h.setQueue hcalm h.quiet, ?_⟩
  rw [Command.settled, hheld, holdings_setQueue, hids, hname, queue?_name hq]

theorem settlement_missing {queue : String} (hq : w.queue? queue = none) :
    Command.settled queue messageID out w.holdings =
      (FSM.failed ("queue not found: " ++ queue), w.holdings) := by
  have hheld : w.holdings queue = none := congrArg (Option.map Queue.ids) hq
  rw [Command.settled, hheld]

theorem applyAck_follows (h : w.Steady) (queue messageID : String) (pass : Pass) :
    (FSM.applyAck queue messageID pass).Returns w (Follows (.ack queue messageID) w) := by
  refine returns_lookup (fun hq => ⟨h, rfl, settlement_missing hq⟩) fun q hq => returns_bind.mpr ?_
  have hcalm := h.calm queue q hq
  have ⟨q', _, result, hack, hstays⟩ :=
    ackWithHook_routed messageID Hook.none pass () hcalm.routed
  have ⟨hsteady, hsettled⟩ := settlement_follows h hq hstays.name (hstays.calm hcalm)
    (ack_ids hack)
  refine (returns_lockedPure hq).mpr ⟨q', (), by rw [hack]; rfl, returns_bind.mpr ?_⟩
  refine hsteady.write ⟨⟨hsteady.calm, hsteady.quiet.stores _⟩, Disk.stores_present _ _, ?_⟩
  simp only [Command.next, Command.choice, hq, Option.any_some]
  exact hsettled

theorem applyNack_follows (h : w.Steady) (queue messageID : String) (requeue : Bool) (now : Time)
    (pass : Pass) :
    (FSM.applyNack queue messageID requeue now pass).Returns w
      (Follows (.nack queue messageID requeue) w) := by
  refine returns_lookup (fun hq => ⟨h, rfl, settlement_missing hq⟩) fun q hq => returns_bind.mpr ?_
  have hcalm := h.calm queue q hq
  have ⟨q', _, result, hnack, hstays⟩ := nackWithHooks_routed messageID requeue Hook.none
    Hook.none now pass () hcalm.routed
  have ⟨hsteady, hsettled⟩ := settlement_follows h hq hstays.name (hstays.calm hcalm)
    (nack_ids hnack)
  refine (returns_lockedPure hq).mpr ⟨q', (), by rw [hnack]; rfl, hsteady, rfl, ?_⟩
  simp only [Command.next, Command.choice, hq, Option.any_some]
  exact hsettled

theorem apply_follows (h : w.Steady) (cmd : Command) (env : ApplyEnv) :
    (FSM.apply cmd env).Returns w (Follows cmd w) := by
  cases cmd with
  | publish cmd =>
    simp only [FSM.apply, FSM.applyPublish]
    cases hstream : cmd.stream with
    | true => exact applyStreamPublish_follows h hstream
    | false => exact applyQueuePublish_follows h hstream env.enqueue
  | ack queue messageID => exact applyAck_follows h queue messageID env.enqueue.pass
  | nack queue messageID requeue =>
    exact applyNack_follows h queue messageID requeue env.now env.enqueue.pass
  | createQueue name =>
    refine (applyCreateQueue_founds h name).mono fun _ _ ⟨hanswer, hfounded⟩ => ?_
    exact ⟨hfounded.steady, hfounded.present, by rw [hanswer, hfounded.holdings]; rfl⟩
  | schemaRegister queue =>
    refine (applyCreateQueue_founds h queue).mono fun _ _ ⟨hanswer, hfounded⟩ => ?_
    exact ⟨hfounded.steady, hfounded.present, by rw [hanswer, hfounded.holdings]; rfl⟩
  | deleteQueue | unknown | undecodable => exact ⟨h, rfl, rfl⟩

/-- A call that a consumer or the reaper makes on a queue of the node. -/
def locally (queue : String) (op : Queue.Op) : Prog Unit :=
  lockedPure (some queue) (fun _ => .silent) fun q => do
    let (q, _) ← q.apply op
    return (q, ())

theorem Queue.local_name {reports : List Queue.Event}
    (hlocal : op.isLocal = true) (h : q.apply op = .ok (q', reports)) : q'.name = q.name := by
  cases op with
  | dequeue timeout pass =>
    simp only [Queue.apply, Go.bind_eq_ok, Go.pure_eq] at h
    obtain ⟨_, hdequeue, hret⟩ := h
    cases hret
    exact (Queue.dequeue_joins hdequeue).2.1
  | removeConsumer ch =>
    cases h
    exact (removeConsumer_leaves ch q).1
  | receive ch =>
    cases h
    rfl
  | requeueExpired sweep group =>
    simp only [Queue.apply, Queue.requeueExpired, Queue.requeueExpiredOwn,
      foldl_expire_inOrder, Go.bind_eq_ok, Go.pure_eq] at h
    obtain ⟨_, ⟨_, hpass, hgroups⟩, hret⟩ := h
    cases hret
    rw [forGroups_same hgroups]
    exact (tryDeliver_undisturbed hpass).name
  | _ => cases hlocal

theorem locally_keeps {queue : String} (h : w.Steady) (hlocal : op.isLocal = true) :
    (locally queue op).Ensures w fun _ w' =>
      w'.Steady ∧ w'.disk = w.disk ∧ w'.holdings = w.holdings := by
  rw [locally, ensures_lockedPure]
  intro name q q' _ hptr hq hok
  obtain rfl := Option.some.inj hptr
  simp only [Go.bind_eq_ok, Go.pure_eq] at hok
  obtain ⟨⟨_, reports⟩, happly, hret⟩ := hok
  cases hret
  obtain ⟨_, _, happly', hcalm⟩ := apply_calm op (h.calm queue q hq)
  cases happly.symm.trans happly'
  refine ⟨h.setQueue hcalm h.quiet, rfl, ?_⟩
  have hheld : w.holdings queue = some q.ids := congrArg (Option.map Queue.ids) hq
  rw [holdings_setQueue, local_ids hlocal happly, local_name hlocal happly,
    queue?_name hq, ← hheld, Function.update_eq_self]

def World.node (present : Bool) (memoryLimit : UInt64) : World :=
  ⟨Broker.new memoryLimit, ⟨present, Storage.empty, fun _ => none⟩⟩

namespace Node

inductive Step : List Command → World → List Command → World → Prop where
  | command {log : List Command} {w w' : World} {answer : FSMResponse} (cmd : Command)
      (env : ApplyEnv) : (FSM.apply cmd env).run w = (.ok answer, w') → Step log w [cmd] w'
  | locally {log : List Command} {w w' : World} (queue : String) (op : Queue.Op) :
      op.isLocal = true → (locally queue op).run w = (.ok (), w') → Step log w [] w'

abbrev Runs := Run Step

theorem node_steady (present : Bool) (memoryLimit : UInt64) :
    (World.node present memoryLimit).Steady :=
  ⟨fun _ _ hq => (by cases hq), rfl⟩

theorem apply_run {cmd : Command} {env : ApplyEnv} (h : w.Steady)
    (hrun : (FSM.apply cmd env).run w = (.ok answer, w')) : Follows cmd w answer w' := by
  have ⟨_, _, hrun', hfollows⟩ := returns_iff.mp (apply_follows h cmd env)
  cases hrun.symm.trans hrun'
  exact hfollows

theorem Runs.steady {start : World} {log : List Command} (run : Runs start log w)
    (h : start.Steady) : w.Steady ∧ w.disk.present = start.disk.present :=
  run.invariant (fun _ w => w.Steady ∧ w.disk.present = start.disk.present) ⟨h, rfl⟩
    fun ⟨hsteady, hpresent⟩ step => by
      cases step with
      | command cmd env hrun =>
        have hfollows := apply_run hsteady hrun
        exact ⟨hfollows.steady, hfollows.present.trans hpresent⟩
      | locally queue op hlocal hrun =>
        have ⟨hnext, hdisk, _⟩ := ensures_iff.mp (locally_keeps hsteady hlocal) _ _ hrun
        exact ⟨hnext, hdisk ▸ hpresent⟩

def publishOrder : Command := .publish ⟨"orders", "a", [1], ∅, 0, false⟩

def ackOrder : Command := .ack "orders" "a"

def epochEnv : ApplyEnv := ⟨unixEpoch, ⟨⟨unixEpoch, []⟩, fun _ => ⟨unixEpoch, []⟩⟩⟩

def applied (cmd : Command) (w : World) : World := ((FSM.apply cmd epochEnv).run w).2

end Node

end QwerQ
