import QwerQ.Queue.Delivery

/-! Runs of a queue: any methods in any order, receives in between, and what
each of them reports. A method is a change of the ledger followed by a delivery
pass; `Change` says which changes there are. -/
namespace QwerQ.Queue
open List KeyedMap

inductive Settlement where
  | acked
  | dropped
  | toDLQ
  | removed
  | purged
  deriving DecidableEq, Repr

inductive Event where
  | accepted (msg : Message)
  | sent (delivery : Delivery)
  | requeued (id : String) (requeue : Bool)
  | swept (now : Time)
  | extended (id : String) (deadline : Time)
  | settled (id : String) (how : Settlement)
  deriving DecidableEq

/-- A call of a method, or a consumer's receive. A hook is given by the error it
returns, if any. -/
inductive Op where
  | enqueue (msg : Message) (env : Env)
  | enqueueDirect (msg : Message) (env : Env)
  | dequeue (visibilityTimeout : Duration) (pass : Pass)
  | removeConsumer (ch : Nat)
  | receive (ch : Nat)
  | ack (id : String) (hook : Option Err) (pass : Pass)
  | nack (id : String) (requeue : Bool) (dropHook requeueHook : Option Err) (now : Time) (pass : Pass)
  | requeueExpired (sweep : Sweep) (group : String → Sweep)
  | extendVisibility (id : String) (extension : Duration) (now : Time)
  | remove (id : String)
  | purge
  | setMaxSize (max : Int)
  | setMaxRetries (max : UInt32)
  | setFailurePolicy (policy : FailurePolicy)

def Op.configures : Op → Bool
  | .setMaxRetries _ => true
  | .setFailurePolicy _ => true
  | _ => false

/-- What a nack reports; a nack that its hook refused reports nothing. -/
def nackEvents (id : String) (requeue : Bool) (result : NackResult) (err : Option Err) :
    List Event :=
  if !result.found || err.isSome then []
  else if result.toDLQ then [.settled id .toDLQ]
  else if result.dropped then [.settled id .dropped]
  else [.requeued id requeue]

def apply : Op → Queue → Go (Queue × List Event)
  | .enqueue msg env, q => do
      let (q, err) ← q.enqueue msg env
      return (q, if err.isNone then [.accepted msg] else [])
  | .enqueueDirect msg env, q => do
      let q ← q.enqueueDirect msg env
      return (q, [.accepted msg])
  | .dequeue visibilityTimeout pass, q => do
      let (q, _) ← q.dequeue visibilityTimeout pass
      return (q, [])
  | .removeConsumer ch, q => .ok (q.removeConsumer ch, [])
  | .receive ch, q => .ok (q.receive ch, [])
  | .ack id hook pass, q => do
      let ((q, _), ok, _) ← q.ackWithHook id (fun _ s => (hook, s)) pass ()
      return (q, if ok then [.settled id .acked] else [])
  | .nack id requeue dropHook requeueHook now pass, q => do
      let ((q, _), result, err) ← q.nackWithHooks id requeue (fun _ s => (dropHook, s))
        (fun _ s => (requeueHook, s)) now pass ()
      return (q, nackEvents id requeue result err)
  | .requeueExpired sweep group, q => do
      let q ← q.requeueExpired sweep group
      return (q, [.swept sweep.now])
  | .extendVisibility id extension now, q =>
      let (q', deadline) := q.extendVisibility id extension now
      .ok (q', if q.inFlight.contains id then [.extended id deadline] else [])
  | .remove id, q =>
      let (q, removed) := q.remove id
      .ok (q, if removed then [.settled id .removed] else [])
  | .purge, q => .ok (q.purge.1, q.live.map fun msg => .settled msg.id .purged)
  | .setMaxSize max, q => .ok (q.setMaxSize max, [])
  | .setMaxRetries max, q => .ok (q.setMaxRetries max, [])
  | .setFailurePolicy policy, q => .ok (q.setFailurePolicy policy, [])

def acceptedIds (history : List Event) : List String :=
  history.filterMap fun
    | .accepted msg => some msg.id
    | _ => none

def settledIds (history : List Event) : List String :=
  history.filterMap fun
    | .settled id _ => some id
    | _ => none

def newSends (q q' : Queue) : List Delivery := q'.sent.drop q.sent.length

/-- One call. The messages a run accepts have distinct ids; `guard` is what a
kind of run asks of each call beyond that. -/
inductive Step (guard : Queue → Op → Prop) : List Event → Queue → List Event → Queue → Prop where
  | call {history reports : List Event} {q q' : Queue} (op : Op) :
      guard q op → q.apply op = .ok (q', reports) →
      (∀ msg, .accepted msg ∈ reports → msg.id ∉ acceptedIds history) →
      Step guard history q (reports ++ (newSends q q').map .sent) q'

abbrev Runs (guard : Queue → Op → Prop) := Run (Step guard)

def anyCall (_ : Queue) (_ : Op) : Prop := True

def play : List Op → List Event → Queue → Go (List Event × Queue)
  | [], history, q => .ok (history, q)
  | op :: ops, history, q => do
      let (q', reports) ← q.apply op
      play ops (history ++ (reports ++ (newSends q q').map .sent)) q'

variable {ops : List Op} {history history' reports : List Event} {q q' changed : Queue}
  {guard : Queue → Op → Prop} {now : Time} {msg : Message} {op : Op} {env : Env}
  {method : ConsumerGroup → Go ConsumerGroup} {id : String} {pass : Pass}

theorem play_extends
    (h : play ops history q = .ok (history', q')) : ∃ events, history' = history ++ events := by
  induction ops generalizing history q with
  | nil =>
    cases h
    exact ⟨[], (append_nil _).symm⟩
  | cons op ops ih =>
    simp only [play, Go.bind_eq_ok] at h
    obtain ⟨⟨_, _⟩, _, hrest⟩ := h
    obtain ⟨events, hevents⟩ := ih hrest
    exact ⟨_, by rw [hevents, append_assoc]⟩

/-- Each call meets the guard in the state it is made in. -/
def Guarded (guard : Queue → Op → Prop) : List Op → Queue → Prop
  | [], _ => True
  | op :: ops, q => guard q op ∧
      match q.apply op with
      | .ok (q', _) => Guarded guard ops q'
      | .error _ => True

theorem guarded_of_forall (h : ∀ op ∈ ops, ∀ q, guard q op) (q : Queue) : Guarded guard ops q := by
  induction ops generalizing q with
  | nil => trivial
  | cons op ops ih =>
    refine ⟨h op mem_cons_self q, ?_⟩
    split
    · exact ih (fun other hmem => h other (mem_cons_of_mem _ hmem)) _
    · trivial

theorem guarded_anyCall (ops : List Op) (q : Queue) : Guarded anyCall ops q :=
  guarded_of_forall (fun _ _ _ => trivial) q

theorem play_runs {start : Queue} (run : Runs guard start history q)
    (hguard : Guarded guard ops q) (h : play ops history q = .ok (history', q'))
    (hfresh : (acceptedIds history').Nodup) : Runs guard start history' q' := by
  induction ops generalizing history q with
  | nil =>
    cases h
    exact run
  | cons op ops ih =>
    simp only [play, Go.bind_eq_ok] at h
    obtain ⟨⟨next, reports⟩, happly, hrest⟩ := h
    simp only [Guarded, happly] at hguard
    refine ih (.next run (.call op hguard.1 happly ?_)) hguard.2 hrest
    intro msg hmem hold
    obtain ⟨events, hevents⟩ := play_extends hrest
    rw [hevents] at hfresh
    have haccepted : msg.id ∈ acceptedIds reports := mem_filterMap.mpr ⟨_, hmem, rfl⟩
    simp only [acceptedIds, filterMap_append, append_assoc] at hfresh
    exact (nodup_append.mp hfresh).2.2 msg.id hold msg.id
      (mem_append_left _ haccepted) rfl

def renewed (now : Time) (msg : Message) : Message := { msg with visibleAt := now }

@[simp] theorem renewed_id (now : Time) (msg : Message) : (renewed now msg).id = msg.id := rfl
@[simp] theorem renewed_body (now : Time) (msg : Message) : (renewed now msg).body = msg.body := rfl

def expired (now : Time) (msg : Message) : Bool := msg.visibleAt < now

/-- The queue after a sweep at `now`: the expired messages are pending again, in
the order the map was visited. -/
def swept (now : Time) (order : List String) (q : Queue) : Queue :=
  { q with
    messages := q.messages ++ ((q.inFlight.inOrder order).filter (expired now)).map (renewed now)
    inFlight := q.inFlight.filter fun msg => !expired now msg }

private theorem foldl_expire (now : Time) (visited : List Message) (q : Queue) :
    visited.foldl (expire now) q =
      { q with
        messages := q.messages ++ (visited.filter (expired now)).map (renewed now)
        inFlight := q.inFlight.filter fun msg =>
          visited.all fun other => !(expired now other && (other.id = msg.id)) } := by
  induction visited generalizing q with
  | nil => simp [KeyedMap.filter]
  | cons first rest ih =>
    rw [foldl_cons, ih]
    by_cases hexpired : expired now first
    · have hlt : first.visibleAt < now := by simpa [expired] using hexpired
      simp only [expire, hlt, if_true, filter_cons, hexpired, map_cons, append_assoc,
        singleton_append, renewed, Queue.mk.injEq, true_and, and_true]
      apply KeyedMap.ext
      simp only [entries_filter, entries_erase, filter_filter, all_cons,
        hexpired, Bool.true_and]
      apply filter_congr
      intro msg _
      by_cases hid : first.id = msg.id <;> simp [hid, eq_comm]
    · have hlt : ¬first.visibleAt < now := by simpa [expired] using hexpired
      simp [expire, hlt, hexpired]

theorem foldl_expire_inOrder (now : Time) (order : List String) (q : Queue) :
    (q.inFlight.inOrder order).foldl (expire now) q = q.swept now order := by
  rw [foldl_expire, swept]
  simp only [Queue.mk.injEq, true_and, and_true]
  apply KeyedMap.ext
  simp only [entries_filter]
  apply filter_congr
  intro msg hmsg
  rw [Bool.eq_iff_iff, all_eq_true]
  constructor
  · intro hall
    simpa using hall msg (KeyedMap.mem_inOrder.mpr hmsg)
  · intro hkept other hother
    by_cases hid : other.id = msg.id
    · rw [q.inFlight.eq_of_key_eq (KeyedMap.mem_inOrder.mp hother) hmsg hid]
      simpa using hkept
    · simp [hid]

structure SameLedger (q q' : Queue) : Prop where
  messages : q'.messages = q.messages
  inFlight : q'.inFlight = q.inFlight
  sent : q'.sent = q.sent
  failurePolicy : q'.failurePolicy = q.failurePolicy
  maxRetries : q'.maxRetries = q.maxRetries

theorem SameLedger.refl (q : Queue) : SameLedger q q := ⟨rfl, rfl, rfl, rfl, rfl⟩

theorem Routes.sameLedger (h : Routes q q') : SameLedger q q' :=
  ⟨h.messages, h.inFlight, h.sent, h.failurePolicy, h.maxRetries⟩

def Op.message? : Op → Option Message
  | .enqueue msg _ => some msg
  | .enqueueDirect msg _ => some msg
  | _ => none

/-- The change a call makes before its delivery pass, with what it reports. -/
inductive Change : Op → Queue → List Event → Queue → Prop where
  | keep {op : Op} {q q' : Queue} : SameLedger q q' → Change op q [] q'
  | configure {op : Op} {q q' : Queue} : op.configures = true → q'.messages = q.messages →
      q'.inFlight = q.inFlight → q'.sent = q.sent → Change op q [] q'
  | accept {op : Op} {q : Queue} {msg : Message} : op.message? = some msg →
      Change op q [.accepted msg] { q with messages := q.messages ++ [msg] }
  | settle {op : Op} {q : Queue} {id : String} {msg : Message} {how : Settlement} :
      q.inFlight.find? id = some msg →
      Change op q [.settled id how] { q with inFlight := q.inFlight.erase id }
  | requeue {op : Op} {q : Queue} {id : String} {msg : Message} {now : Time} {requeue : Bool} :
      q.inFlight.find? id = some msg →
      nackVerdict q.failurePolicy q.maxRetries requeue msg.attempt = .requeue →
      Change op q [.requeued id requeue] { q with
        inFlight := q.inFlight.erase id
        messages := q.messages ++ [renewed now msg] }
  | sweep {sweep : Sweep} {group : String → Sweep} {q : Queue} :
      Change (.requeueExpired sweep group) q [.swept sweep.now] (q.swept sweep.now sweep.order)
  | extend {op : Op} {q : Queue} {id : String} {msg : Message} {deadline : Time} :
      q.inFlight.find? id = some msg →
      Change op q [.extended id deadline] { q with
        inFlight := q.inFlight.insert (renewed deadline msg) }
  | removePending {op : Op} {q : Queue} {id : String} : id ∈ q.messages.map Message.id →
      Change op q [.settled id .removed] { q with
        messages := q.messages.eraseP fun msg => msg.id = id }
  | purge {op : Op} {q : Queue} :
      Change op q (q.live.map fun msg => .settled msg.id .purged) { q with
        messages := []
        inFlight := ∅ }

theorem Change.sent
    (h : Change op q reports q') : q'.sent = q.sent := by
  cases h with
  | keep hsame => exact hsame.sent
  | configure _ _ _ hsent => exact hsent
  | _ => rfl

theorem Change.sends_nothing
    (h : Change op q reports q') (delivery : Delivery) : .sent delivery ∉ reports := by
  cases h with
  | purge => simp
  | _ => simp

theorem Change.accepts (h : Change op q reports q') (hmsg : .accepted msg ∈ reports) :
    op.message? = some msg ∧ q' = { q with messages := q.messages ++ [msg] } := by
  cases h with
  | accept hop =>
    cases mem_singleton.mp hmsg
    exact ⟨hop, rfl⟩
  | purge => simp at hmsg
  | _ => simp at hmsg

theorem Change.settings (h : Change op q reports q') (hop : op.configures = false) :
    q'.failurePolicy = q.failurePolicy ∧ q'.maxRetries = q.maxRetries := by
  cases h with
  | keep hsame => exact ⟨hsame.failurePolicy, hsame.maxRetries⟩
  | configure hconfigures _ _ _ =>
    rw [hop] at hconfigures
    cases hconfigures
  | _ => exact ⟨rfl, rfl⟩

/-- A message that is held was accepted now, or held before with its body and its
attempts. -/
theorem Change.mem_live (h : Change op q reports q') (hmsg : msg ∈ q'.live) :
    .accepted msg ∈ reports ∧ op.message? = some msg ∨
      ∃ old ∈ q.live, msg.body = old.body ∧ msg.attempt = old.attempt := by
  have hstill (hold : msg ∈ q.live) :
      ∃ old ∈ q.live, msg.body = old.body ∧ msg.attempt = old.attempt := ⟨msg, hold, rfl, rfl⟩
  have hwaited (hold : msg ∈ q.messages) := hstill (mem_append_left _ hold)
  have hflew (hold : msg ∈ q.inFlight.entries) := hstill (mem_append_right _ hold)
  cases h with
  | keep hsame =>
    rw [live, hsame.messages, hsame.inFlight] at hmsg
    exact .inr (hstill hmsg)
  | configure _ hmessages hinFlight _ =>
    rw [live, hmessages, hinFlight] at hmsg
    exact .inr (hstill hmsg)
  | accept hop =>
    simp only [live, mem_append, mem_singleton] at hmsg
    rcases hmsg with (hold | rfl) | hin
    · exact .inr (hwaited hold)
    · exact .inl ⟨mem_cons_self, hop⟩
    · exact .inr (hflew hin)
  | settle _ =>
    simp only [live, mem_append, entries_erase, mem_filter] at hmsg
    rcases hmsg with hold | ⟨hin, _⟩
    · exact .inr (hwaited hold)
    · exact .inr (hflew hin)
  | @requeue _ _ _ old _ _ hfind _ =>
    simp only [live, mem_append, mem_singleton, entries_erase,
      mem_filter] at hmsg
    rcases hmsg with (hold | rfl) | ⟨hin, _⟩
    · exact .inr (hwaited hold)
    · exact .inr ⟨old, mem_append_right _ (find?_eq_some_iff.mp hfind).1, rfl, rfl⟩
    · exact .inr (hflew hin)
  | sweep =>
    simp only [live, swept, mem_append, mem_map, mem_filter, KeyedMap.mem_inOrder,
      entries_filter] at hmsg
    rcases hmsg with (hold | ⟨old, ⟨hin, _⟩, rfl⟩) | ⟨hin, _⟩
    · exact .inr (hwaited hold)
    · exact .inr ⟨old, mem_append_right _ hin, rfl, rfl⟩
    · exact .inr (hflew hin)
  | @extend _ _ _ old _ hfind =>
    simp only [live, mem_append, mem_entries_insert] at hmsg
    rcases hmsg with hold | ⟨hin, _⟩ | rfl
    · exact .inr (hwaited hold)
    · exact .inr (hflew hin)
    · exact .inr ⟨old, mem_append_right _ (find?_eq_some_iff.mp hfind).1, rfl, rfl⟩
  | removePending _ =>
    rcases mem_append.mp hmsg with hold | hin
    · exact .inr (hwaited (mem_of_mem_eraseP hold))
    · exact .inr (hflew hin)
  | purge => simp [live] at hmsg

theorem Change.mem_messages (h : Change op q reports q') (hmsg : msg ∈ q'.messages) :
    msg ∈ q.messages ∨ .accepted msg ∈ reports ∧ op.message? = some msg ∨
      (∃ requeue, nackVerdict q.failurePolicy q.maxRetries requeue msg.attempt = .requeue) ∨
      ∃ sweep group, op = .requeueExpired sweep group ∧
        ∃ old ∈ q.inFlight.entries, old.visibleAt < sweep.now ∧ msg.attempt = old.attempt := by
  cases h with
  | keep hsame => exact .inl (hsame.messages ▸ hmsg)
  | configure _ hmessages _ _ => exact .inl (hmessages ▸ hmsg)
  | accept hop =>
    rcases mem_append.mp hmsg with hold | hnew
    · exact .inl hold
    · cases mem_singleton.mp hnew
      exact .inr (.inl ⟨mem_cons_self, hop⟩)
  | requeue _ hverdict =>
    rcases mem_append.mp hmsg with hold | hnew
    · exact .inl hold
    · cases mem_singleton.mp hnew
      exact .inr (.inr (.inl ⟨_, hverdict⟩))
  | @sweep sweep group =>
    simp only [swept, mem_append, mem_map, mem_filter, KeyedMap.mem_inOrder] at hmsg
    rcases hmsg with hold | ⟨old, ⟨hin, hexpired⟩, rfl⟩
    · exact .inl hold
    · exact .inr (.inr (.inr ⟨sweep, group, rfl, old, hin, of_decide_eq_true hexpired, rfl⟩))
  | removePending _ => exact .inl (mem_of_mem_eraseP hmsg)
  | purge => cases hmsg
  | settle | extend => exact .inl hmsg

theorem Change.mem_inFlight (h : Change op q reports q') (hmsg : msg ∈ q'.inFlight.entries) :
    ∃ old ∈ q.inFlight.entries, msg.id = old.id ∧ msg.attempt = old.attempt := by
  have hstill (hold : msg ∈ q.inFlight.entries) :
      ∃ old ∈ q.inFlight.entries, msg.id = old.id ∧ msg.attempt = old.attempt :=
    ⟨msg, hold, rfl, rfl⟩
  cases h with
  | keep hsame => exact hstill (hsame.inFlight ▸ hmsg)
  | configure _ _ hinFlight _ => exact hstill (hinFlight ▸ hmsg)
  | settle | requeue | sweep => exact hstill (mem_of_mem_filter hmsg)
  | @extend _ _ _ old _ hfind =>
    rcases mem_entries_insert.mp hmsg with ⟨hold, _⟩ | rfl
    · exact hstill hold
    · exact ⟨old, (find?_eq_some_iff.mp hfind).1, rfl, rfl⟩
  | purge => cases hmsg
  | accept | removePending => exact hstill hmsg

theorem forGroups_same (h : q.forGroups method = .ok q') : q' = { q with groups := q'.groups } := by
  have hfold (groups : List ConsumerGroup) (first : Queue)
      (hfirst : first = { q with groups := first.groups })
      (hrun : groups.foldlM (fun q g => do
        let g ← method g
        return { q with groups := q.groups.insert g }) first = .ok q') :
      q' = { q with groups := q'.groups } := by
    induction groups generalizing first with
    | nil =>
      cases hrun
      exact hfirst
    | cons g rest ih =>
      rw [foldlM_cons, Go.bind_eq_ok] at hrun
      have ⟨next, hnext, hrest⟩ := hrun
      rw [Go.bind_eq_ok] at hnext
      have ⟨g', _, hset⟩ := hnext
      cases hset
      exact ih _ (by rw [hfirst]) hrest
  exact hfold q.groups.entries q rfl h

theorem forGroups_ok_iff :
    (∃ q', q.forGroups method = .ok q') ↔ ∀ g ∈ q.groups.entries, ∃ g', method g = .ok g' := by
  have hfold (groups : List ConsumerGroup) (current : Queue) :
      (∃ q', groups.foldlM (fun q g => do
        let g ← method g
        return { q with groups := q.groups.insert g }) current = .ok q') ↔
      ∀ g ∈ groups, ∃ g', method g = .ok g' := by
    induction groups generalizing current with
    | nil => exact iff_of_true ⟨current, rfl⟩ fun _ hmem => absurd hmem not_mem_nil
    | cons g rest ih =>
      rw [forall_mem_cons, foldlM_cons]
      cases hg : method g with
      | error panic => simp
      | ok g' => 
        refine (ih { current with groups := current.groups.insert g' }).trans ?_
        simp
  exact hfold q.groups.entries q

theorem forGroups_visits
    (hname : ∀ {g g'}, method g = .ok g' → g'.name = g.name) (h : q.forGroups method = .ok q')
    (group : String) :
    q.groups.find? group = none ∧ q'.groups.find? group = none ∨
      ∃ g g', q.groups.find? group = some g ∧ method g = .ok g' ∧
        q'.groups.find? group = some g' := by
  have hfold (groups : List ConsumerGroup) (current : Queue)
      (hnodup : (groups.map ConsumerGroup.name).Nodup)
      (hrun : groups.foldlM (fun q g => do
        let g ← method g
        return { q with groups := q.groups.insert g }) current = .ok q') :
      (∀ g ∈ groups, ∃ g', method g = .ok g' ∧ q'.groups.find? g.name = some g') ∧
        ∀ group ∉ groups.map ConsumerGroup.name,
          q'.groups.find? group = current.groups.find? group := by
    induction groups generalizing current with
    | nil =>
      cases hrun
      exact ⟨fun _ hmem => absurd hmem not_mem_nil, fun _ _ => rfl⟩
    | cons g rest ih =>
      rw [map_cons, nodup_cons] at hnodup
      simp only [foldlM_cons, Go.bind_eq_ok, Go.pure_eq] at hrun
      obtain ⟨_, ⟨g', hok, hset⟩, hrest⟩ := hrun
      cases hset
      obtain ⟨hvisited, hothers⟩ := ih _ hnodup.2 hrest
      refine ⟨fun other hother => ?_, fun group hnot => ?_⟩
      · rcases mem_cons.mp hother with rfl | hlater
        · refine ⟨g', hok, ?_⟩
          rw [hothers other.name hnodup.1, ← hname hok]
          exact find?_insert_self _ g'
        · exact hvisited other hlater
      · rw [map_cons, mem_cons, not_or] at hnot
        rw [hothers group hnot.2, find?_insert_of_ne _ (hname hok ▸ hnot.1)]
  obtain ⟨hvisited, hothers⟩ := hfold q.groups.entries q q.groups.nodup h
  cases hfind : q.groups.find? group with
  | none =>
    refine .inl ⟨rfl, ?_⟩
    rw [hothers group (find?_eq_none_iff_notMem.mp hfind), hfind]
  | some g =>
    obtain ⟨hmem, hkey⟩ := find?_eq_some_iff.mp hfind
    obtain ⟨g', hok, hfound⟩ := hvisited g hmem
    exact .inr ⟨g, g', rfl, hok, hkey ▸ hfound⟩

theorem forGroups_sameLedger (h : q.forGroups method = .ok q') : SameLedger q q' := by
  rw [forGroups_same h]
  exact ⟨rfl, rfl, rfl, rfl, rfl⟩

theorem enqueue_cases {err : Option Err} (h : q.enqueue msg env = .ok (q', err)) :
    q.full = true ∧ q' = q ∧ err = some .queueFull ∨
      q.full = false ∧ err = none ∧ q.enqueueDirect msg env = .ok q' := by
  unfold enqueue at h
  split at h
  · rename_i hfull
    cases h
    exact .inl ⟨hfull, rfl, rfl⟩
  · rename_i hroom
    simp only [Go.bind_eq_ok, Go.pure_eq] at h
    obtain ⟨_, hdirect, hret⟩ := h
    cases hret
    exact .inr ⟨Bool.eq_false_iff.mpr hroom, rfl, hdirect⟩

/-- A call is a change of the ledger, then a delivery pass, then at most a fan-out
to the groups. -/
def Splits (op : Op) (q : Queue) (reports : List Event) (q' : Queue) : Prop :=
  ∃ changed delivered now sends, Change op q reports changed ∧
    Delivers now changed sends delivered ∧ SameLedger delivered q'

theorem Splits.of_change (h : Change op q reports q') : Splits op q reports q' :=
  ⟨q', q', 0, [], h, .start, .refl q'⟩

theorem Splits.of_tryDeliver
    (h : Change op q reports changed) (hpass : changed.tryDeliver pass = .ok q') :
    Splits op q reports q' := by
  have ⟨sends, run⟩ := tryDeliver_delivers hpass
  exact ⟨changed, q', pass.now, sends, h, run, .refl q'⟩

/-- A call is a change that leaves the groups alone, then at most one delivery pass,
then a visit to each group, if it makes one. -/
structure Phases (op : Op) (q : Queue) (reports : List Event) (changed delivered q' : Queue) :
    Prop where
  change : Change op q reports changed
  groups : changed.groups = q.groups
  keys : (∀ ch, op ≠ .removeConsumer ch) → changed.keyAssignments = q.keyAssignments
  pass : delivered = changed ∨ ∃ pass, changed.tryDeliver pass = .ok delivered
  visits : q' = delivered ∨
    (∃ msg group, .accepted msg ∈ reports ∧ delivered.fanOut msg group = .ok q') ∨
    ∃ group : String → Sweep,
      delivered.forGroups (fun g => g.requeueExpired (group g.name)) = .ok q'

def Phased (op : Op) (q : Queue) (reports : List Event) (q' : Queue) : Prop :=
  ∃ changed delivered, Phases op q reports changed delivered q'

theorem Phased.of_change (h : Change op q reports q') (hgroups : q'.groups = q.groups)
    (hkeys : (∀ ch, op ≠ .removeConsumer ch) → q'.keyAssignments = q.keyAssignments) :
    Phased op q reports q' :=
  ⟨q', q', h, hgroups, hkeys, .inl rfl, .inl rfl⟩

theorem Phased.of_keep (q : Queue) : Phased op q [] q :=
  .of_change (.keep (.refl q)) rfl fun _ => rfl

theorem Phased.of_pass (h : Change op q reports changed) (hgroups : changed.groups = q.groups)
    (hkeys : changed.keyAssignments = q.keyAssignments) (hpass : changed.tryDeliver pass = .ok q') :
    Phased op q reports q' :=
  ⟨changed, q', h, hgroups, fun _ => hkeys, .inr ⟨pass, hpass⟩, .inl rfl⟩

theorem Phased.splits (h : Phased op q reports q') : Splits op q reports q' := by
  have ⟨changed, delivered, phases⟩ := h
  have hsame : SameLedger delivered q' := by
    rcases phases.visits with rfl | ⟨_, _, _, hfan⟩ | ⟨_, hgroups⟩
    · exact .refl _
    · exact forGroups_sameLedger hfan
    · exact forGroups_sameLedger hgroups
  rcases phases.pass with rfl | ⟨pass, hpass⟩
  · exact ⟨delivered, delivered, 0, [], phases.change, .start, hsame⟩
  · have ⟨sends, run⟩ := tryDeliver_delivers hpass
    exact ⟨changed, delivered, pass.now, sends, phases.change, run, hsame⟩

theorem enqueueDirect_phased
    (hop : op.message? = some msg) (h : q.enqueueDirect msg env = .ok q') :
    Phased op q [.accepted msg] q' := by
  simp only [enqueueDirect, Go.bind_eq_ok] at h
  obtain ⟨delivered, hpass, hfan⟩ := h
  exact ⟨_, delivered, .accept hop, rfl, fun _ => rfl, .inr ⟨_, hpass⟩,
    .inr (.inl ⟨msg, _, mem_cons_self, hfan⟩)⟩

theorem ackWithHook_phased {hook : Hook σ} {s s' : σ} {result : Bool × Option Err}
    (h : q.ackWithHook id hook pass s = .ok ((q', s'), result)) :
    Phased op q (if result.1 then [.settled id .acked] else []) q' := by
  cases ackWithHook_cases h with
  | missing | refused => exact .of_keep q
  | settled hfind _ hpass => exact .of_pass (.settle hfind) rfl rfl hpass

theorem nackWithHooks_phased {requeue : Bool} {dropHook requeueHook : Hook σ} {s s' : σ}
    {result : NackResult × Option Err}
    (h : q.nackWithHooks id requeue dropHook requeueHook now pass s = .ok ((q', s'), result)) :
    Phased op q (nackEvents id requeue result.1 result.2) q' := by
  cases nackWithHooks_cases h with
  | missing | keptFromDrop | keptFromRequeue => exact .of_keep q
  | toDLQ hfind _ => exact .of_change (.settle hfind) rfl fun _ => rfl
  | dropped hfind _ _ => exact .of_change (.settle hfind) rfl fun _ => rfl
  | requeued hfind hverdict _ hpass => exact .of_pass (.requeue hfind hverdict) rfl rfl hpass

private theorem extendVisibility_phased {extension : Duration} :
    Phased op q
      (if q.inFlight.contains id then [.extended id (q.extendVisibility id extension now).2] else [])
      (q.extendVisibility id extension now).1 := by
  unfold extendVisibility KeyedMap.contains
  cases hfind : q.inFlight.find? id with
  | none => exact .of_keep q
  | some msg => exact .of_change (.extend hfind) rfl fun _ => rfl

private theorem remove_phased :
    Phased op q (if (q.remove id).2 then [.settled id .removed] else []) (q.remove id).1 := by
  unfold remove
  split
  · rename_i hany
    have ⟨msg, hmem, hid⟩ := any_eq_true.mp hany
    exact .of_change (.removePending (mem_map.mpr ⟨msg, hmem, by simpa using hid⟩)) rfl fun _ => rfl
  · split
    · rename_i hcontains
      unfold KeyedMap.contains at hcontains
      have ⟨msg, hfind⟩ := Option.isSome_iff_exists.mp hcontains
      exact .of_change (.settle hfind) rfl fun _ => rfl
    · exact .of_keep q

theorem apply_phases (h : q.apply op = .ok (q', reports)) : Phased op q reports q' := by
  cases op with
  | enqueue msg env =>
    simp only [apply, Go.bind_eq_ok] at h
    obtain ⟨⟨next, err⟩, henqueue, hret⟩ := h
    cases hret
    rcases enqueue_cases henqueue with ⟨_, rfl, rfl⟩ | ⟨_, rfl, hdirect⟩
    · exact .of_keep next
    · exact enqueueDirect_phased rfl hdirect
  | enqueueDirect msg env =>
    simp only [apply, Go.bind_eq_ok] at h
    obtain ⟨next, hdirect, hret⟩ := h
    cases hret
    exact enqueueDirect_phased rfl hdirect
  | dequeue visibilityTimeout pass =>
    simp only [apply, dequeue, Go.bind_eq_ok] at h
    obtain ⟨next, ⟨delivered, hpass, hnext⟩, hret⟩ := h
    cases hnext
    cases hret
    exact .of_pass (.keep (by exact ⟨rfl, rfl, rfl, rfl, rfl⟩)) (by rfl) (by rfl) hpass
  | removeConsumer ch =>
    cases h
    refine .of_change (.keep ?_) ?_ fun hother => absurd rfl (hother ch)
    · unfold removeConsumer
      split <;> exact ⟨rfl, rfl, rfl, rfl, rfl⟩
    · unfold removeConsumer
      split <;> rfl
  | ack id hook pass =>
    simp only [apply, Go.bind_eq_ok] at h
    obtain ⟨⟨⟨next, s⟩, acked, err⟩, hack, hret⟩ := h
    cases hret
    exact ackWithHook_phased hack
  | nack id requeue dropHook requeueHook now pass =>
    simp only [apply, Go.bind_eq_ok] at h
    obtain ⟨⟨⟨next, s⟩, result, err⟩, hnack, hret⟩ := h
    cases hret
    exact nackWithHooks_phased hnack
  | requeueExpired sweep group =>
    simp only [apply, requeueExpired, requeueExpiredOwn, foldl_expire_inOrder, Go.bind_eq_ok] at h
    obtain ⟨next, ⟨delivered, hpass, hgroups⟩, hret⟩ := h
    cases hret
    exact ⟨_, delivered, .sweep, rfl, fun _ => rfl, .inr ⟨_, hpass⟩, .inr (.inr ⟨group, hgroups⟩)⟩
  | extendVisibility id extension now =>
    cases h
    exact extendVisibility_phased
  | remove id =>
    cases h
    exact remove_phased
  | purge =>
    cases h
    exact .of_change .purge rfl fun _ => rfl
  | setMaxRetries | setFailurePolicy =>
    cases h
    exact .of_change (.configure rfl rfl rfl rfl) rfl fun _ => rfl
  | receive | setMaxSize =>
    cases h
    exact .of_change (.keep ⟨rfl, rfl, rfl, rfl, rfl⟩) rfl fun _ => rfl

theorem apply_splits (h : q.apply op = .ok (q', reports)) : Splits op q reports q' :=
  (apply_phases h).splits

theorem newSends_eq {delivered : Queue}
    {sends : List Delivery} (hchange : Change op q reports changed)
    (run : Delivers now changed sends delivered) (hsame : SameLedger delivered q') :
    newSends q q' = sends := by
  rw [newSends, hsame.sent, run.sent, hchange.sent, drop_left]

/-- The rule for what a call keeps: it is kept by routing and other changes that leave
the ledger alone, by the change the call makes, and by handing out one message. -/
theorem Splits.invariant (holds : List Event → Queue → Prop)
    (hsame : ∀ {history q q'}, SameLedger q q' → holds history q → holds history q')
    (hhand : ∀ {history} {q : Queue} {c now msg rest}, q.messages = msg :: rest →
      msg.visibleAt ≤ now → c ∈ q.consumers → holds history q →
      holds (history ++ [.sent ⟨c.ch, cloneMessage msg, now, c.visibilityTimeout⟩])
        (q.handOut c now msg rest))
    (history : List Event)
    (hchange : ∀ {q'}, Change op q reports q' → holds (history ++ reports) q')
    (h : Splits op q reports q') :
    holds (history ++ (reports ++ (newSends q q').map .sent)) q' := by
  have ⟨changed, delivered, now, sends, hop, run, hfinal⟩ := h
  rw [newSends_eq hop run hfinal, ← append_assoc]
  have hdelivered := run.invariant
    (fun sends q => holds (history ++ reports ++ sends.map .sent) q)
    (by simpa using hchange hop)
    (fun {_ before events _} hbefore taken => by
      rw [map_append, ← append_assoc]
      cases taken with
      | route hroutes => simpa using hsame hroutes.sameLedger hbefore
      | handOut hhead hvisible hconsumer => exact hhand hhead hvisible hconsumer hbefore)
  exact hsame hfinal hdelivered

theorem Splits.sent
    (h : Splits op q reports q') : q'.sent = q.sent ++ newSends q q' := by
  have ⟨changed, delivered, now, sends, hop, run, hfinal⟩ := h
  rw [newSends_eq hop run hfinal, hfinal.sent, run.sent, hop.sent]

/-- A call makes no message up: where all that the queue holds or accepts is known, so is
all that it holds and sends afterwards. -/
theorem Splits.known (known : Body → Prop) (hlive : ∀ msg ∈ q.live, known msg.body)
    (hreports : ∀ msg, .accepted msg ∈ reports → known msg.body)
    (h : Splits op q reports q') :
    (∀ msg ∈ q'.live, known msg.body) ∧ ∀ delivery ∈ newSends q q', known delivery.msg.body := by
  have hafter := h.invariant
    (fun history q => (∀ msg ∈ q.live, known msg.body) ∧
      ∀ delivery, .sent delivery ∈ history → known delivery.msg.body) ?_ ?_ [] ?_
  · refine ⟨hafter.1, fun delivery hsend => hafter.2 delivery ?_⟩
    exact mem_append_right _ (mem_append_right _ (mem_map_of_mem hsend))
  · intro history q q' hsame hheld
    rw [live, hsame.messages, hsame.inFlight]
    exact hheld
  · intro history q c now msg rest hhead _ _ hheld
    have hmsg : known msg.body := by
      refine hheld.1 msg (mem_append_left _ ?_)
      rw [hhead]
      exact mem_cons_self
    refine ⟨fun other hother => ?_, fun delivery hsend => ?_⟩
    · rcases mem_append.mp hother with hwaits | hflies
      · refine hheld.1 other (mem_append_left _ ?_)
        rw [hhead]
        exact mem_cons_of_mem _ hwaits
      · rcases mem_entries_insert.mp hflies with ⟨hold, _⟩ | rfl
        · exact hheld.1 other (mem_append_right _ hold)
        · exact hmsg
    · rcases mem_append.mp hsend with hold | hnew
      · exact hheld.2 delivery hold
      · cases mem_singleton.mp hnew
        exact hmsg
  · intro q' hchange
    refine ⟨fun msg hmsg => ?_, fun delivery hsend => absurd hsend (hchange.sends_nothing delivery)⟩
    rcases hchange.mem_live hmsg with ⟨haccepted, _⟩ | ⟨old, hold, hbody, _⟩
    · exact hreports msg haccepted
    · rw [hbody]
      exact hlive old hold

/-- The rule for every invariant of queue runs: it is kept by routing and other
changes that leave the ledger alone, by each change a call can make, and by
handing out one message. -/
theorem Step.invariant (holds : List Event → Queue → Prop)
    (hsame : ∀ {history q q'}, SameLedger q q' → holds history q → holds history q')
    (hchange : ∀ {history op q reports q'}, guard q op → Change op q reports q' →
      (∀ msg, .accepted msg ∈ reports → msg.id ∉ acceptedIds history) →
      holds history q → holds (history ++ reports) q')
    (hhand : ∀ {history} {q : Queue} {c now msg rest}, q.messages = msg :: rest →
      msg.visibleAt ≤ now → c ∈ q.consumers → holds history q →
      holds (history ++ [.sent ⟨c.ch, cloneMessage msg, now, c.visibilityTimeout⟩])
        (q.handOut c now msg rest))
    {events : List Event} (h : holds history q)
    (step : Step guard history q events q') : holds (history ++ events) q' := by
  cases step with
  | call op hguard happly hfresh =>
    exact (apply_splits happly).invariant holds hsame hhand history
      fun hop => hchange hguard hop hfresh h

/-- A queue without groups whose keys are assigned to registered consumers: no
method of it panics. -/
structure Calm (q : Queue) : Prop where
  routed : q.Routed
  ungrouped : q.groups.entries = []

theorem calm_new (name : String) : (new name).Calm :=
  ⟨fun _ h => absurd h not_mem_nil, rfl⟩

/-- A settlement leaves the queue routed, under its name and with its groups. -/
structure StaysRouted (q q' : Queue) : Prop where
  routed : q'.Routed
  groups : q'.groups = q.groups
  name : q'.name = q.name

theorem StaysRouted.calm (hstays : StaysRouted q q') (h : q.Calm) : q'.Calm :=
  ⟨hstays.routed, hstays.groups ▸ h.ungrouped⟩

theorem tryDeliver_routed (pass : Pass) (h : q.Routed) :
    ∃ q', q.tryDeliver pass = .ok q' ∧ StaysRouted q q' := by
  have ⟨q', hpass⟩ := tryDeliver_ok pass h
  have ⟨_, run⟩ := tryDeliver_delivers hpass
  exact ⟨q', hpass, run.routed h, by rw [run.same], by rw [run.same]⟩

theorem tryDeliver_calm (pass : Pass) (h : q.Calm) :
    ∃ q', q.tryDeliver pass = .ok q' ∧ q'.Calm := by
  have ⟨q', hpass, hstays⟩ := tryDeliver_routed pass h.routed
  exact ⟨q', hpass, hstays.calm h⟩

theorem forGroups_calm (method : ConsumerGroup → Go ConsumerGroup) (h : q.Calm) :
    q.forGroups method = .ok q := by
  rw [forGroups, h.ungrouped]
  rfl

theorem enqueueDirect_calm (msg : Message) (env : Env) (h : q.Calm) :
    ∃ q', tryDeliver env.pass { q with messages := q.messages ++ [msg] } = .ok q' ∧
      q.enqueueDirect msg env = .ok q' ∧ q'.Calm := by
  have ⟨q', hpass, hcalm⟩ := tryDeliver_calm env.pass
    (q := { q with messages := q.messages ++ [msg] }) ⟨h.routed, h.ungrouped⟩
  refine ⟨q', hpass, ?_, hcalm⟩
  simp only [enqueueDirect, hpass, fanOut]
  exact forGroups_calm _ hcalm

theorem dequeue_calm (visibilityTimeout : Duration) (pass : Pass) (h : q.Calm) :
    ∃ q', q.dequeue visibilityTimeout pass = .ok (q', q.made) ∧ q'.Calm := by
  have hrouted := h.routed.join ⟨q.made, visibilityTimeout, none⟩ (q.made + 1)
  have ⟨q', hpass, hcalm⟩ := tryDeliver_calm pass ⟨hrouted, h.ungrouped⟩
  refine ⟨q', ?_, hcalm⟩
  simp only [dequeue, hpass]
  rfl

theorem removeConsumer_routed (ch : Nat) (h : q.Routed) : (q.removeConsumer ch).Routed := by
  unfold removeConsumer
  split
  · intro assignment hmem
    have ⟨hold, hne⟩ := mem_filter.mp hmem
    have ⟨c, hc, hch⟩ := mem_map.mp (h assignment hold)
    refine mem_map.mpr ⟨c, ?_, hch⟩
    rw [mem_eraseP_of_neg]
    · exact hc
    · rw [hch]
      simpa using hne
  · exact h

theorem removeConsumer_calm (ch : Nat) (h : q.Calm) : (q.removeConsumer ch).Calm := by
  refine ⟨removeConsumer_routed ch h.routed, ?_⟩
  unfold removeConsumer
  split <;> exact h.ungrouped

theorem receive_calm (ch : Nat) (h : q.Calm) : (q.receive ch).Calm := by
  refine ⟨?_, h.ungrouped⟩
  intro assignment hmem
  have hchannels : (q.receive ch).consumers.map Consumer.ch = q.consumers.map Consumer.ch := by
    simp only [receive, map_map]
    apply map_congr_left
    intro c _
    simp only [Function.comp_apply]
    split <;> rfl
  rw [hchannels]
  exact h.routed assignment hmem

theorem ackWithHook_routed (id : String) (hook : Hook σ) (pass : Pass) (s : σ)
    (h : q.Routed) : ∃ q' s' result, q.ackWithHook id hook pass s = .ok ((q', s'), result) ∧
      StaysRouted q q' := by
  unfold ackWithHook
  split
  · exact ⟨q, s, _, rfl, h, rfl, rfl⟩
  · split
    · exact ⟨q, _, _, rfl, h, rfl, rfl⟩
    · have ⟨q', hpass, hstays⟩ := tryDeliver_routed pass
        (q := { q with inFlight := q.inFlight.erase id }) h
      simp only [hpass]
      exact ⟨q', _, _, rfl, hstays.routed, hstays.groups, hstays.name⟩

theorem nackWithHooks_routed (id : String) (requeue : Bool)
    (dropHook requeueHook : Hook σ) (now : Time) (pass : Pass) (s : σ) (h : q.Routed) :
    ∃ q' s' result, q.nackWithHooks id requeue dropHook requeueHook now pass s =
      .ok ((q', s'), result) ∧ StaysRouted q q' := by
  unfold nackWithHooks
  split
  · exact ⟨q, s, _, rfl, h, rfl, rfl⟩
  · rename_i msg _
    split
    · exact ⟨_, s, _, rfl, h, rfl, rfl⟩
    · unfold nackDrop
      dsimp only
      split
      · exact ⟨q, _, _, rfl, h, rfl, rfl⟩
      · exact ⟨_, _, _, rfl, h, rfl, rfl⟩
    · unfold nackRequeue
      dsimp only
      split
      · exact ⟨q, _, _, rfl, h, rfl, rfl⟩
      · have ⟨q', hpass, hstays⟩ := tryDeliver_routed pass
          (q := { q with
            inFlight := q.inFlight.erase id
            messages := q.messages ++ [{ msg with visibleAt := now }] }) h
        simp only [hpass]
        exact ⟨q', _, _, rfl, hstays.routed, hstays.groups, hstays.name⟩

theorem requeueExpired_calm (sweep : Sweep) (group : String → Sweep) (h : q.Calm) :
    ∃ q', (q.swept sweep.now sweep.order).tryDeliver sweep.pass = .ok q' ∧
      q.requeueExpired sweep group = .ok q' ∧ q'.Calm := by
  have ⟨q', hpass, hcalm⟩ := tryDeliver_calm sweep.pass
    (q := q.swept sweep.now sweep.order) ⟨h.routed, h.ungrouped⟩
  refine ⟨q', hpass, ?_, hcalm⟩
  simp only [requeueExpired, requeueExpiredOwn, foldl_expire_inOrder, hpass]
  exact forGroups_calm _ hcalm

theorem apply_calm (op : Op) (h : q.Calm) :
    ∃ q' reports, q.apply op = .ok (q', reports) ∧ q'.Calm := by
  have hconfig {q' : Queue} (hroute : q'.keyAssignments = q.keyAssignments)
      (hconsumers : q'.consumers = q.consumers) (hgroups : q'.groups = q.groups) : q'.Calm := by
    refine ⟨?_, hgroups ▸ h.ungrouped⟩
    unfold Routed
    rw [hroute, hconsumers]
    exact h.routed
  cases op with
  | enqueue msg env =>
    have ⟨q', _, hdirect, hcalm⟩ := enqueueDirect_calm msg env h
    simp only [apply, enqueue, hdirect]
    split
    · exact ⟨q, _, rfl, h⟩
    · exact ⟨q', _, rfl, hcalm⟩
  | enqueueDirect msg env =>
    have ⟨q', _, hdirect, hcalm⟩ := enqueueDirect_calm msg env h
    exact ⟨q', _, by simp only [apply, hdirect]; rfl, hcalm⟩
  | dequeue visibilityTimeout pass =>
    have ⟨q', hdequeue, hcalm⟩ := dequeue_calm visibilityTimeout pass h
    exact ⟨q', _, by simp only [apply, hdequeue]; rfl, hcalm⟩
  | removeConsumer ch => exact ⟨_, _, rfl, removeConsumer_calm ch h⟩
  | receive ch => exact ⟨_, _, rfl, receive_calm ch h⟩
  | ack id hook pass =>
    have ⟨q', _, result, hack, hstays⟩ :=
      ackWithHook_routed id (fun _ s => (hook, s)) pass () h.routed
    exact ⟨q', _, by simp only [apply, hack]; rfl, hstays.calm h⟩
  | nack id requeue dropHook requeueHook now pass =>
    have ⟨q', _, result, hnack, hstays⟩ := nackWithHooks_routed id requeue
      (fun _ s => (dropHook, s)) (fun _ s => (requeueHook, s)) now pass () h.routed
    exact ⟨q', _, by simp only [apply, hnack]; rfl, hstays.calm h⟩
  | requeueExpired sweep group =>
    have ⟨q', _, hexpired, hcalm⟩ := requeueExpired_calm sweep group h
    exact ⟨q', _, by simp only [apply, hexpired]; rfl, hcalm⟩
  | extendVisibility id extension now =>
    refine ⟨(q.extendVisibility id extension now).1, _, rfl, ?_⟩
    unfold extendVisibility
    split <;> exact hconfig rfl rfl rfl
  | remove id =>
    refine ⟨(q.remove id).1, _, rfl, ?_⟩
    unfold remove
    split
    · exact hconfig rfl rfl rfl
    · split <;> exact hconfig rfl rfl rfl
  | purge | setMaxSize | setMaxRetries | setFailurePolicy => exact ⟨_, _, rfl, hconfig rfl rfl rfl⟩

theorem Runs.calm {first : Queue} (run : Runs guard first history q) (h : first.Calm) : q.Calm :=
  run.invariant (fun _ q => q.Calm) h fun hcalm step => by
    cases step with
    | call op _ happly _ =>
      have ⟨q', reports, hcall, hnext⟩ := apply_calm op hcalm
      rw [happly] at hcall
      cases hcall
      exact hnext

end QwerQ.Queue
