import QwerQ.Queue.Ledger
import QwerQ.Server.Registry

/-! Acks after a history of subscriptions. The state remembers the queue of the last
subscription, but that the connection has been in stream mode it never forgets. -/
namespace QwerQ
open List Process

namespace Queue
variable {q q' : Queue} {id : String}

def copies (id : String) (q : Queue) : Nat := (q.live.map Message.id).count id

variable {msg : Message}

theorem copies_eq (id : String) (q : Queue) : q.copies id =
    (q.messages.map Message.id).count id + (q.inFlight.entries.map Message.id).count id := by
  rw [copies, live, map_append, count_append]

theorem handOut_copies {c : Consumer} {now : Time} {rest : List Message}
    (hhead : q.messages = msg :: rest) : (q.handOut c now msg rest).copies id ≤ q.copies id := by
  have hinsert := (KeyedMap.entries_perm_insert q.inFlight
    (leased msg (now + c.visibilityTimeout))).map Message.id
  have herase : ((q.inFlight.erase msg.id).entries.map Message.id).count id ≤
      (q.inFlight.entries.map Message.id).count id := by
    rw [KeyedMap.entries_erase]
    exact (filter_sublist.map Message.id).count_le id
  rw [leased_id, map_cons, leased_id] at hinsert
  rw [copies_eq, copies_eq, hhead, handOut, hinsert.count_eq, map_cons, count_cons,
    count_cons]
  dsimp only
  omega

theorem Delivers.copies_le {now : Time} {sends : List Delivery} (run : Delivers now q sends q') :
    q'.copies id ≤ q.copies id :=
  run.invariant (fun _ q' => q'.copies id ≤ q.copies id) (Nat.le_refl _) fun hle step => by
    cases step with
    | route hroutes =>
      rw [copies_eq, hroutes.messages, hroutes.inFlight, ← copies_eq]
      exact hle
    | handOut hhead _ _ => exact Nat.le_trans (handOut_copies hhead) hle

theorem erase_copies (h : q.inFlight.find? id = some msg) :
    copies id { q with inFlight := q.inFlight.erase id } < q.copies id := by
  have hid : msg.id = id := (KeyedMap.find?_eq_some_iff.mp h).2
  have hperm := (KeyedMap.entries_perm_erase h).map Message.id
  rw [copies_eq, copies_eq, hperm.count_eq, map_cons, hid, count_cons_self]
  exact Nat.lt_succ_self _

end Queue

namespace Server

inductive Subscription where
  | queue (name group : String)
  | stream (name : String)
  deriving DecidableEq, Repr

/-- What a frame subscribed to: a refused seek subscribes to nothing. -/
def Event.subscription? (event : Event) : Option Subscription :=
  match event.frame, event.response with
  | .consume req _ _, _ => some (.queue req.queue req.group)
  | .seek req, some (.seekAck _) => some (.stream req.queue)
  | _, _ => none

def subscriptions (history : List Event) : List Subscription :=
  history.filterMap Event.subscription?

/-- The connection's next frame, in whatever broker it meets. -/
inductive Hears : List Event → ConnState → List Event → ConnState → Prop where
  | handle {history : List Event} {state state' : ConnState} {response : Option Response}
      {w w' : World} (frame : Frame) :
      (handleFrame frame state).run w = (.ok (state', response), w') →
      Hears history state [⟨frame, state, state', response⟩] state'

/-- The state follows the subscriptions, and is in stream mode once it has sought. -/
structure Follows (subscriptions : List Subscription) (state : ConnState) : Prop where
  streamMode : state.streamMode = true ↔ ∃ name, .stream name ∈ subscriptions
  last : ∀ name group, subscriptions.getLast? = some (.queue name group) →
    state.queueName = name ∧ (state.groupName = group ∨ state.groupName = "")

theorem follows_new (addr : String) : Follows [] (.new addr) := by
  refine ⟨?_, fun name group hlast => by cases hlast⟩
  simp [ConnState.new]

variable {made : List Subscription} {state : ConnState} {msg : Message}

theorem Follows.stays {state' : ConnState}
    (h : Follows made state) (hmode : state'.streamMode = state.streamMode)
    (hqueue : state'.queueName = state.queueName)
    (hgroup : state'.groupName = state.groupName ∨ state'.groupName = "") :
    Follows made state' := by
  refine ⟨hmode ▸ h.streamMode, fun name group hlast => ?_⟩
  have ⟨hname, hnamed⟩ := h.last name group hlast
  refine ⟨hqueue.trans hname, ?_⟩
  rcases hgroup with hsame | hempty
  · rwa [hsame]
  · exact .inr hempty

theorem Follows.queue {state' : ConnState} {name group : String}
    (h : Follows made state) (hmode : state'.streamMode = state.streamMode)
    (hqueue : state'.queueName = name) (hgroup : state'.groupName = group) :
    Follows (made ++ [.queue name group]) state' := by
  refine ⟨?_, fun name' group' hlast => ?_⟩
  · rw [hmode, h.streamMode]
    simp
  · rw [getLast?_concat] at hlast
    cases hlast
    exact ⟨hqueue, .inl hgroup⟩

theorem Follows.stream {name : String}
    (hmode : state.streamMode = true) : Follows (made ++ [.stream name]) state := by
  refine ⟨?_, fun name' group' hlast => ?_⟩
  · simp only [hmode, true_iff]
    exact ⟨name, by simp⟩
  · rw [getLast?_concat] at hlast
    cases hlast

theorem subscriptions_snoc (history : List Event) (event : Event) :
    subscriptions (history ++ [event]) = subscriptions history ++ event.subscription?.toList := by
  rw [subscriptions, filterMap_append]
  cases hevent : event.subscription? <;> simp [hevent, subscriptions]

theorem Follows.handleFrame {history : List Event} {w : World}
    (h : Follows (subscriptions history) state) (frame : Frame) :
    (Server.handleFrame frame state).Ensures w fun result _ =>
      Follows (subscriptions (history ++ [⟨frame, state, result.1, result.2⟩])) result.1 := by
  simp only [subscriptions_snoc]
  cases frame with
  | consume req now pass =>
    simp only [Server.handleFrame, Server.handleConsume, ensures_bind]
    exact (handleConsume_registers _ _ _ _ _ _).mono fun _ _ _ => h.queue rfl rfl rfl
  | seek req =>
    refine (handleSeek_registers req state).mono fun result _ hresult => ?_
    obtain ⟨state', response⟩ := result
    rcases hresult with ⟨hstate, ⟨err, hresponse⟩, _⟩ | ⟨group, ch, offset, _, hresult, _⟩
    · dsimp only at hstate hresponse
      subst hstate hresponse
      simpa [Event.subscription?] using h
    · cases hresult
      exact .stream rfl
  | unsubscribe queue group env =>
    simp only [Server.handleFrame, Server.handleUnsubscribe, ensures_bind]
    refine (unsubscribe_registers _ _ _ _).mono fun found _ _ => ?_
    split
    · have hleft : Follows (subscriptions history) { state with msgCh := none, groupName := "" } :=
        h.stays rfl rfl (.inr rfl)
      simpa [Event.subscription?] using hleft
    · simpa [Event.subscription?] using h
  | ack messageID pass =>
    simp only [Server.handleFrame, Server.handleAck]
    split
    · simpa [Event.subscription?] using h
    · simp only [ensures_bind]
      exact (handleAck_registers _ _ _ _).mono fun _ _ _ => by simpa [Event.subscription?] using h
  | nack messageID requeue env =>
    simp only [Server.handleFrame, Server.handleNack, ensures_bind]
    exact (handleNack_registers _ _ _ _ _).mono fun _ _ _ => by simpa [Event.subscription?] using h
  | call req env =>
    have hcalled (manager : CallManager) :
        Follows (subscriptions history) { state with callManager := some manager } :=
      h.stays rfl rfl (.inl rfl)
    simp only [Server.handleFrame, Server.handleCall]
    split
    · refine (callWith_registers _ _ _ _).mono fun result _ hresult => ?_
      simpa [Event.subscription?, hresult.1] using hcalled _
    · rw [ensures_bind]
      refine (newCallManager_registers _ _).mono fun manager next _ => ?_
      refine (callWith_registers _ _ _ _).mono fun result _ hresult => ?_
      simpa [Event.subscription?, hresult.1] using hcalled _

theorem hears_follows {addr : String} {history : List Event}
    (run : Run Hears (.new addr) history state) : Follows (subscriptions history) state :=
  run.invariant (fun history state => Follows (subscriptions history) state) (follows_new addr)
    fun h step => by
      cases step with
      | handle frame hrun => exact ensures_iff.mp (h.handleFrame frame) _ _ hrun

/-- The ack is refused, or one message less is held under the id and none is stored. -/
def Settles (queue id : String) (before : Nat) (response : Option Response) (w : World) : Prop :=
  (∃ code message, response = some (.error code message)) ∨
    ∃ q, w.queue? queue = some q ∧ q.copies id < before ∧
      (w.disk.present = true → w.disk.storage.table (queue, id) = none)

variable {name messageID : String} {w : World}

theorem handleAck_settles {q : Queue} (hwired : w.Wired)
    (hmode : state.streamMode = false) (hname : state.queueName = name) (hgroup : state.groupName = "")
    (hq : w.queue? name = some q) (hmsg : q.inFlight.find? messageID = some msg) (pass : Pass) :
    (Server.handleAck messageID pass state).Returns w fun result w' =>
      Settles name messageID (q.copies messageID) result.2 w' := by
  have hrouted : q.Routed := (World.queueAt_of_some hq ▸ hwired.queues name).routed
  simp only [Server.handleAck, hmode, hname, hgroup, Bool.false_eq_true, if_false]
  rw [returns_bind, QwerQ.handleAck, returns_found hq, if_neg (not_not_intro rfl), returns_locked hq]
  simp only [Queue.ackWithHook, hmsg, deleteStored]
  rcases hwrite : w.disk.write (Storage.deleteMessage name messageID) with ⟨_ | err, disk⟩
  · obtain ⟨q', hpass⟩ := Queue.tryDeliver_ok pass
      (show Queue.Routed { q with inFlight := q.inFlight.erase messageID } from hrouted)
    obtain ⟨_, run⟩ := Queue.tryDeliver_delivers hpass
    refine ⟨q', disk, _, by rw [hpass]; rfl, .inr ⟨q', ?_, ?_, ?_⟩⟩
    · exact World.queue?_put q' hq (by rw [run.same])
    · exact Nat.lt_of_le_of_lt run.copies_le (Queue.erase_copies hmsg)
    · intro hpresent
      have hdeleted := Disk.write_accepted hwrite hpresent
      rw [show ({ w.setQueue q' with disk := disk } : World).disk.storage = _ from hdeleted,
        Storage.table_deleteMessage, Function.update_self]
  · exact ⟨q, disk, _, rfl, .inl ⟨_, _, rfl⟩⟩

theorem handleAck_ignored (hmode : state.streamMode = true) (pass : Pass) :
    (Server.handleAck messageID pass state).run w = (.ok (state, none), w) := by
  simp only [Server.handleAck, hmode]
  rfl

theorem ack_settles_iff {addr : String} {history : List Event} {q : Queue} {msg : Message}
    (run : Run Hears (.new addr) history state)
    (hlast : (subscriptions history).getLast? = some (.queue name "")) (hwired : w.Wired)
    (hq : w.queue? name = some q) (hmsg : q.inFlight.find? messageID = some msg) :
    (∀ pass, (Server.handleAck messageID pass state).Returns w fun result w' =>
        Settles name messageID (q.copies messageID) result.2 w') ↔
      ∀ stream, .stream stream ∉ subscriptions history := by
  have hfollows := hears_follows run
  have ⟨hname, hgroup⟩ := hfollows.last name "" hlast
  constructor
  · intro h stream hstream
    have hmode := hfollows.streamMode.mpr ⟨stream, hstream⟩
    have ⟨result, w', hrun, hsettles⟩ := returns_iff.mp (h ⟨0, []⟩)
    rw [handleAck_ignored hmode] at hrun
    cases hrun
    rcases hsettles with ⟨_, _, herror⟩ | ⟨q', hq', hless, _⟩
    · cases herror
    · cases hq.symm.trans hq'
      exact Nat.lt_irrefl _ hless
  · intro h pass
    have hmode : state.streamMode = false := by
      rw [Bool.eq_false_iff]
      intro hstream
      have ⟨stream, hmem⟩ := hfollows.streamMode.mp hstream
      exact h stream hmem
    exact handleAck_settles hwired hmode hname (hgroup.elim id id) hq hmsg pass

def publishOrder : Prog (Except Err String) :=
  handlePublish ⟨"orders", [1], ∅, "", "", ""⟩ ⟨0, 0, "a", 0, ⟨⟨0, []⟩, fun _ => ⟨0, []⟩⟩⟩

def published : World := (publishOrder.run (World.opened 0 fun _ => none)).2

theorem published_wired : published.Wired := by
  have hrun : publishOrder.run (World.opened 0 fun _ => none) = (.ok (.ok "a"), published) := rfl
  exact (ensures_iff.mp (handlePublish_registers _ _) _ _ hrun).wired (wired_opened 0 _)

def consumeOrders : Frame := .consume ⟨"orders", 0, ""⟩ 0 ⟨0, []⟩

def seekEvents : Frame := .seek ⟨"events", "", .beginning, 0, 0⟩

def heard (frame : Frame) (state : ConnState) (w : World) : World := ((handleFrame frame state).run w).2

/-- The message is delivered to the connection, which acks it. -/
theorem ack_settles_delivered :
    ∃ history state q msg, Run Hears (.new "client") history state ∧
      (subscriptions history).getLast? = some (.queue "orders" "") ∧
      (heard consumeOrders (.new "client") published).queue? "orders" = some q ∧
      q.inFlight.find? "a" = some msg ∧
      ∀ pass, (Server.handleAck "a" pass state).Returns (heard consumeOrders (.new "client") published)
        fun result w' => Settles "orders" "a" (q.copies "a") result.2 w' := by
  have hrun : (Server.handleFrame consumeOrders (.new "client")).run published =
    (.ok _, heard consumeOrders (.new "client") published) := rfl
  have run : Run Hears (.new "client") _ _ := Run.start.next (.handle consumeOrders hrun)
  have hwired := ensures_iff.mp (handleFrame_wired consumeOrders (.new "client")) _ _ hrun published_wired
  have ⟨q, hq, hfound⟩ : ∃ q, (heard consumeOrders (.new "client") published).queue? "orders" = some q ∧
      (q.inFlight.find? "a").isSome := ⟨_, rfl, rfl⟩
  have ⟨msg, hmsg⟩ := Option.isSome_iff_exists.mp hfound
  refine ⟨_, _, q, msg, run, rfl, hq, hmsg, ?_⟩
  exact (ack_settles_iff run rfl hwired hq hmsg).mpr fun stream h => by
    simp [subscriptions, Event.subscription?, consumeOrders] at h

/-- A seek, then the same: the ack is accepted, and the message stays in flight and
stored. -/
theorem ack_ignored_after_seek :
    ∃ history state w, Run Hears (.new "client") history state ∧
      subscriptions history = [.stream "events", .queue "orders" ""] ∧
      ((World.queue? "orders" w).bind fun q => q.inFlight.find? "a").isSome ∧
      (w.disk.storage.table ("orders", "a")).isSome ∧
      (Server.handleAck "a" ⟨0, []⟩ state).run w = (.ok (state, none), w) := by
  have hseek : (Server.handleFrame seekEvents (.new "client")).run published =
    (.ok (sought (.new "client") "events" "client" 0, some (.seekAck 1)),
      heard seekEvents (.new "client") published) := rfl
  have run : Run Hears (.new "client") _ _ := Run.start.next (.handle seekEvents hseek)
  refine ⟨_, _, heard consumeOrders (sought (.new "client") "events" "client" 0)
    (heard seekEvents (.new "client") published), run.next (.handle consumeOrders
      (w := heard seekEvents (.new "client") published) rfl), rfl, rfl, rfl, rfl⟩

end Server

end QwerQ
