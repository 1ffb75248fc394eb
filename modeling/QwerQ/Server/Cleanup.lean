import QwerQ.Server.Registry

/-! What a connection leaves behind. Its state holds one channel and one stream
consumer, so a connection that gives up what it holds before it asks for more has
nothing registered once it has ended. Any other connection may leak. -/
namespace QwerQ
open Process World Option Registry

namespace ConnState

def current (state : ConnState) : Option Chan :=
  match state.streamConsumer with
  | some (stream, ch) => some (.stream stream ch)
  | none => state.msgCh

def Consumes (state : ConnState) : Prop := state.streamConsumer = none ∧ state.msgCh.isSome = true

theorem current_of_idle {state : ConnState} (h : ¬state.Consumes) :
    state.current = state.streamConsumer.map fun consumer => .stream consumer.1 consumer.2 := by
  unfold current
  split
  · rename_i hstream
    rw [hstream]
    rfl
  · rename_i hnone
    rw [hnone]
    by_contra hsome
    exact h ⟨hnone, isSome_iff_ne_none.mpr hsome⟩

end ConnState

namespace Server

/-- A subscription is asked for while nothing else is held, but for an older consumer
of the stream that is sought; what is unsubscribed is what is held, unless nothing is
found; there are no calls. -/
def Orderly (frame : Frame) (s : Session) : Prop :=
  match frame with
  | .consume .. => s.state.msgCh = none ∧ s.state.streamConsumer = none
  | .seek req => ¬s.state.Consumes ∧
      ∀ stream ch, s.state.streamConsumer = some (stream, ch) → stream = req.queue
  | .unsubscribe queue group _ => s.state.Consumes →
      s.world.finds queue group true = true → queue = s.state.queueName ∧ group = s.state.groupName
  | .ack .. | .nack .. => True
  | .call .. => False

def madeIn (history : List Event) : List Chan := history.flatMap Event.made

theorem madeIn_snoc (history : List Event) (event : Event) :
    madeIn (history ++ [event]) = madeIn history ++ event.made := by
  simp [madeIn]

/-- The state's channels are those of the queue, group or stream it names. -/
structure Consistent (state : ConnState) : Prop where
  stream : ∀ stream ch, state.streamConsumer = some (stream, ch) →
    state.queueName = stream ∧ ∀ chan, state.msgCh = some chan → chan = .stream stream ch
  queue : state.streamConsumer = none → ∀ chan, state.msgCh = some chan →
    ∃ ch, chan = .consumed state.queueName state.groupName ch

/-- Of the channels made for the connection only the current one may be registered,
and no other member has its address. -/
structure Tidy (addr : String) (history : List Event) (s : Session) : Prop where
  wired : s.world.Wired
  address : s.state.clientAddr = addr
  consistent : Consistent s.state
  only : ∀ chan ∈ madeIn history, s.world.registry.Has chan → s.state.current = some chan
  members : ∀ queue group, ∀ entry ∈ s.world.registry.members queue group, entry.1 = addr →
    s.state.current = some (.member queue group entry.2)
  joined : ∀ queue group ch, s.state.current = some (.member queue group ch) →
    (addr, ch) ∈ s.world.registry.members queue group

/-- Nothing that was made for the connection is registered, and no member has its
address. -/
structure Clear (addr : String) (history : List Event) (w : World) : Prop where
  gone : ∀ chan ∈ madeIn history, ¬w.registry.Has chan
  members : ∀ queue group, ∀ entry ∈ w.registry.members queue group, entry.1 ≠ addr

variable {addr : String} {history : List Event} {s : Session} {next w' : World}

theorem Tidy.clears (h : Tidy addr history s) (hshrinks : s.world.registry.Shrinks next.registry)
    (hgone : ∀ chan, s.state.current = some chan → ¬next.registry.Has chan) :
    Clear addr history next where
  gone chan hchan hhas := hgone chan (h.only chan hchan (hshrinks.has hhas)) hhas
  members queue group entry hentry heq := by
    refine hgone _ (h.members queue group entry (hshrinks.members queue group hentry) heq) ?_
    exact List.mem_map_of_mem hentry

variable {event : Event} {state : ConnState} {queue : String} {w : World}

theorem Tidy.stays (h : Tidy addr history s) (hmade : event.made = []) (hwired : next.Wired)
    (hshrinks : s.world.registry.Shrinks next.registry) (haddr : state.clientAddr = addr)
    (hconsistent : Consistent state) (hcurrent : state.current = s.state.current)
    (hjoined : ∀ queue group ch, s.state.current = some (.member queue group ch) →
      next.registry.members queue group = s.world.registry.members queue group) :
    Tidy addr (history ++ [event]) ⟨state, next⟩ where
  wired := hwired
  address := haddr
  consistent := hconsistent
  only chan hchan hhas := by
    rw [madeIn_snoc, hmade, List.append_nil] at hchan
    exact hcurrent.trans (h.only chan hchan (hshrinks.has hhas))
  members queue group entry hentry heq :=
    hcurrent.trans (h.members queue group entry (hshrinks.members queue group hentry) heq)
  joined queue group ch hmember := by
    have hmember' := hcurrent.symm.trans hmember
    rw [hjoined queue group ch hmember']
    exact h.joined queue group ch hmember'

theorem Tidy.unchanged (h : Tidy addr history s) (hmade : event.made = [])
    (hregisters : Registers id s.world next) : Tidy addr (history ++ [event]) ⟨s.state, next⟩ := by
  have hregistry : next.registry = s.world.registry := hregisters.registry
  refine h.stays hmade (hregisters.wired h.wired) ?_ h.address h.consistent rfl ?_
  · rw [hregistry]
    exact shrinks_refl _
  · intro queue group ch _
    rw [hregistry]

theorem Clear.joins {chan : Chan}
    (h : Clear addr history next) (hwired : next.Wired) (haddr : state.clientAddr = addr)
    (hconsistent : Consistent state) (hcurrent : state.current = some chan)
    (hmade : event.made = [chan]) (hjoins : Joins addr chan next w') :
    Tidy addr (history ++ [event]) ⟨state, w'⟩ where
  wired := hjoins.registers.wired hwired
  address := haddr
  consistent := hconsistent
  only other hother hhas := by
    rw [madeIn_snoc, hmade, List.mem_append, List.mem_singleton] at hother
    rw [hjoins.registers.registry] at hhas
    rcases has_join hhas with hold | rfl
    · rcases hother with hearlier | rfl
      · exact absurd hold (h.gone other hearlier)
      · exact hcurrent
    · exact hcurrent
  members queue group entry hentry heq := by
    rw [hjoins.registers.registry, mem_members_join] at hentry
    rcases hentry with hold | ⟨_, hchan⟩
    · exact absurd heq (h.members queue group entry hold)
    · exact hchan ▸ hcurrent
  joined queue group ch hmember := by
    rw [hjoins.registers.registry, mem_members_join]
    exact .inr ⟨rfl, Option.some.inj (hcurrent.symm.trans hmember)⟩

theorem Tidy.consume {req : ConsumeRequest} {now : Time} {pass : Pass} (h : Tidy addr history s)
    (hfree : s.state.msgCh = none ∧ s.state.streamConsumer = none) :
    (Server.handleConsume req now pass s.state).Ensures s.world fun result w' =>
      Tidy addr (history ++ [⟨.consume req now pass, s.state, result.1, result.2⟩])
        ⟨result.1, w'⟩ := by
  have hclear : Clear addr history s.world := by
    refine h.clears (shrinks_refl _) fun chan hchan => ?_
    rw [ConnState.current, hfree.1, hfree.2] at hchan
    cases hchan
  simp only [Server.handleConsume, ensures_bind]
  refine (handleConsume_registers _ _ _ _ _ _).mono fun result w' ⟨ch, hresult, hjoins⟩ => ?_
  rw [h.address] at hjoins
  subst hresult
  refine hclear.joins h.wired h.address ?_ ?_ rfl hjoins
  · refine ⟨fun stream ch' hstream => ?_, fun _ chan hchan => ⟨ch, (Option.some.inj hchan).symm⟩⟩
    exact absurd (hfree.2.symm.trans hstream) (by simp)
  · simp only [ConnState.current, hfree.2]
    rfl

theorem Tidy.dropped (h : Tidy addr history s) (hidle : ¬s.state.Consumes)
    (hsame : ∀ stream ch, s.state.streamConsumer = some (stream, ch) → stream = queue)
    (hregisters : Registers (Registry.dropped queue s.state.streamConsumer) s.world next) :
    Clear addr history next := by
  match hstream : s.state.streamConsumer with
  | none =>
    rw [hstream] at hregisters
    have hregistry : next.registry = s.world.registry := hregisters.registry
    refine h.clears ?_ fun chan hchan => ?_
    · rw [hregistry]
      exact shrinks_refl _
    · rw [ConnState.current, hstream] at hchan
      exact absurd ⟨hstream, isSome_of_eq_some hchan⟩ hidle
  | some (stream, ch) =>
    have hqueue := hsame stream ch hstream
    subst hqueue
    rw [hstream] at hregisters
    have hregistry : next.registry = s.world.registry.leaveStream stream ch :=
      hregisters.registry.trans (if_pos rfl)
    refine h.clears ?_ fun chan hchan => ?_
    · rw [hregistry]
      exact shrinks_leaveStream stream ch _
    · rw [ConnState.current, hstream] at hchan
      cases hchan
      rw [hregistry]
      exact not_has_leaveStream (h.wired.streams stream).distinct

theorem Tidy.seek {req : SeekRequest} (h : Tidy addr history s) (hidle : ¬s.state.Consumes)
    (hsame : ∀ stream ch, s.state.streamConsumer = some (stream, ch) → stream = req.queue) :
    (Server.handleSeek req s.state).Ensures s.world fun result w' =>
      Tidy addr (history ++ [⟨.seek req, s.state, result.1, result.2⟩]) ⟨result.1, w'⟩ := by
  refine (handleSeek_registers _ _).mono fun (state, response) w' hresult => ?_
  rcases hresult with ⟨hstate, ⟨err, hresponse⟩, hregisters⟩ |
    ⟨group, ch, offset, next, hresult, hregisters, hjoins⟩
  · dsimp only at hstate hresponse
    subst hstate hresponse
    exact h.unchanged rfl hregisters
  · cases hresult
    rw [h.address] at hjoins
    refine (h.dropped hidle hsame hregisters).joins (hregisters.wired h.wired) h.address ?_ rfl rfl hjoins
    refine ⟨fun stream ch' hstream => ?_, fun hnone => by cases hnone⟩
    cases hstream
    exact ⟨rfl, fun chan hchan => (Option.some.inj hchan).symm⟩

theorem finds_of_has {group : String} {ch : Nat}
    (h : w.registry.Has (.consumed queue group ch)) : w.finds queue group true = true := by
  by_cases hgroup : group = ""
  · rw [Chan.consumed, if_pos hgroup] at h
    rw [World.finds, if_pos hgroup, Bool.and_true]
    cases hq : w.queue? queue with
    | some q => rfl
    | none =>
      have hempty : w.registry.consumers queue = [] := by
        simp only [registry, queueAt, hq]
        rfl
      simp [Registry.Has, hempty] at h
  · rw [Chan.consumed, if_neg hgroup] at h
    rw [World.finds, if_neg hgroup]
    cases hfound : (w.queue? queue).bind fun q => q.groups.find? group with
    | some g => rfl
    | none =>
      have hempty : w.registry.members queue group = [] := by
        simp only [registry, queueAt, Queue.rosterOf]
        cases hq : w.queue? queue with
        | none => rfl
        | some q =>
          rw [hq] at hfound
          simp only [bind_some] at hfound
          simp [hfound]
      simp [Registry.Has, hempty] at h

theorem Tidy.leaves {found : Bool} (h : Tidy addr history s) (hconsumes : s.state.Consumes)
    (hfound : found = s.world.finds s.state.queueName s.state.groupName s.state.msgCh.isSome)
    (hregisters : Registers (if found then Registry.unsubscribed s.state.queueName
      s.state.groupName s.state.clientAddr (s.state.msgCh.bind (Chan.inQueue s.state.queueName))
      else id) s.world next) :
    Clear addr history next := by
  have ⟨hstream, hsome⟩ := hconsumes
  have ⟨chan, hchan⟩ := isSome_iff_exists.mp hsome
  have ⟨ch, hconsumed⟩ := h.consistent.queue hstream chan hchan
  have hcurrent : s.state.current = some (.consumed s.state.queueName s.state.groupName ch) := by
    rw [ConnState.current, hstream, hchan, hconsumed]
  rw [hsome] at hfound
  cases found with
  | false =>
    have hregistry : next.registry = s.world.registry := hregisters.registry
    refine h.clears ?_ fun other hother => ?_
    · rw [hregistry]
      exact shrinks_refl _
    · obtain rfl := Option.some.inj (hcurrent.symm.trans hother)
      rw [hregistry]
      exact fun hhas => absurd (hfound.trans (finds_of_has hhas)) (by decide)
  | true =>
    have hregistry := hregisters.registry
    simp only [if_true, hchan, hconsumed, bind_some, Registry.unsubscribed, Chan.consumed,
      h.address] at hregistry
    rw [Chan.consumed] at hcurrent
    by_cases hgroup : s.state.groupName = ""
    · simp only [if_pos hgroup, Chan.inQueue, if_true] at hregistry hcurrent
      refine h.clears ?_ fun other hother => ?_
      · rw [hregistry]
        exact shrinks_leaveQueue _ _ _
      · obtain rfl := Option.some.inj (hcurrent.symm.trans hother)
        rw [hregistry]
        exact not_has_leaveQueue (h.wired.queues _).distinct
    · simp only [if_neg hgroup] at hregistry hcurrent
      refine h.clears ?_ fun other hother => ?_
      · rw [hregistry]
        exact shrinks_leaveGroup _ _ _ _
      · obtain rfl := Option.some.inj (hcurrent.symm.trans hother)
        rw [hregistry]
        refine not_has_leaveGroup ((h.wired.queues _).groupsDistinct _)
          (h.joined _ _ _ hcurrent) fun entry hentry heq => ?_
        have hmember := h.members _ _ entry hentry heq
        cases hcurrent.symm.trans hmember
        rfl

theorem Clear.idle (h : Clear addr history next)
    (hwired : next.Wired) (haddr : state.clientAddr = addr) (hnone : state.streamConsumer = none)
    (hch : state.msgCh = none) (hmade : event.made = []) :
    Tidy addr (history ++ [event]) ⟨state, next⟩ where
  wired := hwired
  address := haddr
  consistent := by
    refine ⟨fun stream ch hstream => ?_, fun _ chan hchan => ?_⟩
    · exact absurd (hnone.symm.trans hstream) (by simp)
    · exact absurd (hch.symm.trans hchan) (by simp)
  only chan hchan hhas := by
    rw [madeIn_snoc, hmade, List.append_nil] at hchan
    exact absurd hhas (h.gone chan hchan)
  members queue group entry hentry heq := absurd heq (h.members queue group entry hentry)
  joined queue group ch hcurrent := by
    rw [ConnState.current, hnone, hch] at hcurrent
    cases hcurrent

theorem shrinks_unsubscribed (queue group memberID : String) (ch : Option Nat) (r : Registry) :
    r.Shrinks (r.unsubscribed queue group memberID ch) := by
  unfold Registry.unsubscribed
  split
  · split
    · exact shrinks_refl r
    · exact shrinks_leaveQueue _ _ _
  · exact shrinks_leaveGroup _ _ _ _

theorem Tidy.unsubscribe {group : String} {env : LeaveEnv} (h : Tidy addr history s)
    (hown : s.state.Consumes → s.world.finds queue group true = true →
      queue = s.state.queueName ∧ group = s.state.groupName) :
    (Server.handleUnsubscribe queue group env s.state).Ensures s.world fun result w' =>
      Tidy addr (history ++ [⟨.unsubscribe queue group env, s.state, result.1, result.2⟩])
        ⟨result.1, w'⟩ := by
  simp only [Server.handleUnsubscribe, ensures_bind]
  refine (unsubscribe_registers _ _ _ _).mono fun found w' ⟨hfound, hregisters⟩ => ?_
  cases found with
  | false => exact h.unchanged rfl hregisters
  | true =>
    have hwired := hregisters.wired h.wired
    by_cases hconsumes : s.state.Consumes
    · have ⟨hqueue, hgroup⟩ := hown hconsumes (hconsumes.2 ▸ hfound).symm
      subst hqueue hgroup
      exact (h.leaves hconsumes hfound hregisters).idle hwired h.address hconsumes.1 rfl rfl
    · have hregistry := hregisters.registry
      refine h.stays rfl hwired ?_ h.address ?_ ?_ ?_
      · rw [hregistry]
        exact shrinks_unsubscribed _ _ _ _ _
      · exact ⟨fun stream ch hstream => ⟨(h.consistent.stream stream ch hstream).1,
          fun chan hchan => by cases hchan⟩, fun _ chan hchan => by cases hchan⟩
      · rw [ConnState.current_of_idle hconsumes, ConnState.current_of_idle fun h => by cases h.2]
      · intro queue' group' ch hmember
        rw [ConnState.current_of_idle hconsumes, map_eq_some_iff] at hmember
        have ⟨_, _, hmember⟩ := hmember
        cases hmember

theorem Tidy.handleFrame {frame : Frame} (h : Tidy addr history s) (horderly : Orderly frame s) :
    (Server.handleFrame frame s.state).Ensures s.world fun result w' =>
      Tidy addr (history ++ [⟨frame, s.state, result.1, result.2⟩]) ⟨result.1, w'⟩ := by
  cases frame with
  | consume req now pass => exact h.consume horderly
  | seek req => exact h.seek horderly.1 horderly.2
  | unsubscribe queue group env => exact h.unsubscribe horderly
  | ack messageID pass =>
    simp only [Server.handleFrame, Server.handleAck]
    split
    · exact h.unchanged rfl (registers_refl _)
    · simp only [ensures_bind]
      exact (handleAck_registers _ _ _ _).mono fun _ w' hregisters => h.unchanged rfl hregisters
  | nack messageID requeue env =>
    simp only [Server.handleFrame, Server.handleNack, ensures_bind]
    exact (handleNack_registers _ _ _ _ _).mono fun _ w' hregisters => h.unchanged rfl hregisters
  | call => exact horderly.elim

theorem tidy_new (hwired : w.Wired)
    (hmembers : ∀ queue group, ∀ entry ∈ w.registry.members queue group, entry.1 ≠ addr) :
    Tidy addr [] ⟨.new addr, w⟩ where
  wired := hwired
  address := rfl
  consistent := ⟨fun _ _ hstream => (by cases hstream), fun _ _ hchan => (by cases hchan)⟩
  only _ hchan := by cases hchan
  members queue group entry hentry heq := absurd heq (hmembers queue group entry hentry)
  joined _ _ _ hcurrent := by cases hcurrent

theorem Runs.tidy (hwired : w.Wired)
    (hmembers : ∀ queue group, ∀ entry ∈ w.registry.members queue group, entry.1 ≠ addr)
    (run : Runs Orderly ⟨.new addr, w⟩ history s) : Tidy addr history s :=
  run.invariant (Tidy addr) (tidy_new hwired hmembers) fun h step => by
    cases step with
    | handle frame horderly hrun => exact ensures_iff.mp (h.handleFrame horderly) _ _ hrun

theorem Tidy.disconnect (h : Tidy addr history s) (env : LeaveEnv) :
    (Server.disconnect env s.state).Ensures s.world fun _ w' => Clear addr history w' := by
  unfold Server.disconnect
  split
  · rename_i stream ch hstream
    obtain ⟨hqueue, _⟩ := h.consistent.stream stream ch hstream
    subst hqueue
    have hcurrent : s.state.current = some (.stream s.state.queueName ch) := by
      rw [ConnState.current, hstream]
    simp only [isStreamQueue, ensures_bind, ensures_look]
    split
    · rw [ensures_lockedStream]
      intro name sq hptr hsq
      obtain rfl := Option.some.inj hptr
      have hregisters := removeConsumer_registers ch hsq
      rw [if_pos trivial]
      refine h.clears ?_ fun chan hchan => ?_
      · exact hregisters.registry ▸ shrinks_leaveStream _ _ _
      · obtain rfl := Option.some.inj (hcurrent.symm.trans hchan)
        exact hregisters.registry ▸ not_has_leaveStream (h.wired.streams _).distinct
    · rename_i hmissing
      refine h.clears (shrinks_refl _) fun chan hchan hhas => ?_
      obtain rfl := Option.some.inj (hcurrent.symm.trans hchan)
      have hnone : s.world.stream? s.state.queueName = none := by simpa using hmissing
      have hempty : s.world.registry.streams s.state.queueName = [] := by
        simp only [registry, streamAt, hnone]
        rfl
      simp [Registry.Has, hempty] at hhas
  · rename_i chan hstream hchan
    simp only [ensures_bind]
    refine (unsubscribe_registers _ _ _ _).mono fun found w' hleft => ?_
    exact h.leaves ⟨hstream, isSome_of_eq_some hchan⟩ hleft.1 hleft.2
  · rename_i hstream hchan
    refine h.clears (shrinks_refl _) fun chan hcurrent => ?_
    rw [ConnState.current, hstream, hchan] at hcurrent
    cases hcurrent

theorem Tidy.disconnects (h : Tidy addr history s) (env : LeaveEnv)
    (hungrouped : ∀ queue group ch, s.state.current ≠ some (.member queue group ch)) :
    ∃ w', (Server.disconnect env s.state).run s.world = (.ok (), w') := by
  suffices hreturns : (Server.disconnect env s.state).Returns s.world fun _ _ => True by
    obtain ⟨_, w', hrun, _⟩ := returns_iff.mp hreturns
    exact ⟨w', hrun⟩
  unfold Server.disconnect
  split
  · simp only [isStreamQueue, returns_bind, returns_look]
    split
    · rename_i hsome
      obtain ⟨sq, hsq⟩ := isSome_iff_exists.mp hsome
      rw [returns_lockedStream hsq]
      trivial
    · trivial
  · rename_i chan hstream hchan
    obtain ⟨ch, hconsumed⟩ := h.consistent.queue hstream chan hchan
    have hcurrent : s.state.current = some chan := by rw [ConnState.current, hstream, hchan]
    have hgroup : s.state.groupName = "" := by
      by_contra hne
      rw [hconsumed, Chan.consumed, if_neg hne] at hcurrent
      exact hungrouped _ _ _ hcurrent
    rw [Chan.consumed, if_pos hgroup] at hconsumed
    simp only [Server.unsubscribe, hchan, hconsumed, Chan.inQueue, if_true, hgroup,
      QwerQ.handleUnsubscribe, returns_bind, returns_getQueue]
    split
    · trivial
    · rename_i hfound
      obtain ⟨q, hq⟩ : ∃ q, s.world.queue? s.state.queueName = some q :=
        ne_none_iff_exists'.mp (by simpa using hfound)
      simp [returns_lockedPure hq]
  · trivial

/-- After every run of orderly frames the cleanup leaves none of the connection's
channels registered, if it returns; it does unless the connection is a member of a
group. -/
theorem disconnect_leaves_nothing {w : World} (hwired : w.Wired)
    (hmembers : ∀ queue group, ∀ entry ∈ w.registry.members queue group, entry.1 ≠ addr)
    (run : Runs Orderly ⟨.new addr, w⟩ history s) (env : LeaveEnv) :
    (∀ w', (disconnect env s.state).run s.world = (.ok (), w') →
        ∀ chan ∈ madeIn history, ¬w'.registry.Has chan) ∧
      ((∀ queue group ch, s.state.current ≠ some (.member queue group ch)) →
        ∃ w', (disconnect env s.state).run s.world = (.ok (), w')) := by
  have h := run.tidy hwired hmembers
  refine ⟨fun w' hrun => ?_, h.disconnects env⟩
  exact (ensures_iff.mp (h.disconnect env) _ _ hrun).gone

def consumeFrame (queue group : String) : Frame := .consume ⟨queue, 0, group⟩ 0 ⟨0, []⟩

def leaveEnv : LeaveEnv := ⟨fun _ => 0, [], ⟨0, []⟩⟩

/-- A consumer that leaves its queue and then joins a group of another. -/
theorem disconnect_leaves_nothing_group :
    ∃ history s w', Runs Orderly ⟨.new "client", World.opened 0 fun _ => none⟩ history s ∧
      madeIn history = [.consumer "orders" 0, .member "events" "workers" 0] ∧
      s.world.registry.Has (.member "events" "workers" 0) ∧
      (disconnect leaveEnv s.state).run s.world = (.ok (), w') ∧
      ¬w'.registry.Has (.member "events" "workers" 0) := by
  have run : Runs Orderly ⟨.new "client", World.opened 0 fun _ => none⟩ _ _ :=
    ((Run.start.next (.handle (consumeFrame "orders" "") ⟨rfl, rfl⟩ rfl)).next
      (.handle (.unsubscribe "orders" "" leaveEnv) (fun _ _ => ⟨rfl, rfl⟩) rfl)).next
      (.handle (consumeFrame "events" "workers") ⟨rfl, rfl⟩ rfl)
  refine ⟨_, _, _, run, rfl, ?_, rfl, ?_⟩
  · exact List.mem_singleton_self _
  · exact (disconnect_leaves_nothing (wired_opened 0 _) (fun _ _ _ h => by cases h) run leaveEnv).1
      _ rfl _ (by decide)

/-- The second consumer replaces the first in the state, and the first stays. -/
theorem second_consume_leaks :
    ∃ history s w', Runs (fun _ _ => True) ⟨.new "client", World.opened 0 fun _ => none⟩ history s ∧
      madeIn history = [.consumer "orders" 0, .consumer "events" 0] ∧
      (disconnect leaveEnv s.state).run s.world = (.ok (), w') ∧
      w'.registry.Has (.consumer "orders" 0) := by
  have run : Runs (fun _ _ => True) ⟨.new "client", World.opened 0 fun _ => none⟩ _ _ :=
    (Run.start.next (.handle (consumeFrame "orders" "") trivial rfl)).next
      (.handle (consumeFrame "events" "") trivial rfl)
  exact ⟨_, _, _, run, rfl, rfl, List.mem_singleton_self _⟩

end Server

end QwerQ
