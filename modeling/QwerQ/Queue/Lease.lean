import QwerQ.Queue.Ledger

/-! Leases. A send takes a lease on a message, an extension renews it, and a
requeue, a sweep past its deadline or a settlement ends it. The lease is read off
the history alone; the queue keeps it as the visibility time of the in-flight
entry. -/
namespace QwerQ.Queue
open List KeyedMap
variable {q q' : Queue} {id : String}

def renewLease (id : String) (held : Option Time) : Event → Option Time
  | .accepted _ => held
  | .sent delivery => if delivery.msg.id = id then some (delivery.now + delivery.timeout) else held
  | .requeued other requeue => if other = id ∧ requeue then none else held
  | .swept now => held.filter fun deadline => now ≤ deadline
  | .extended other deadline => if other = id then some deadline else held
  | .settled other _ => if other = id then none else held

def lease (history : List Event) (id : String) : Option Time :=
  history.foldl (renewLease id) none

variable {history reports events : List Event} {msg : Message} {rest : List Message}
  {now deadline : Time} {op : Op}

@[simp] theorem lease_append (history events : List Event) (id : String) :
    lease (history ++ events) id = events.foldl (renewLease id) (lease history id) :=
  foldl_append

/-- A send finds its message neither leased nor settled. -/
def SendsFree (before : List Event) : Event → Prop
  | .sent delivery => lease before delivery.msg.id = none ∧ delivery.msg.id ∉ settledIds before
  | _ => True

/-- The in-flight map holds exactly the leases, each with its deadline. -/
structure Leased (history : List Event) (q : Queue) : Prop where
  accounted : Accounted history q
  deadlines : ∀ id, lease history id = (q.inFlight.find? id).map Message.visibleAt
  sends : AtEach SendsFree history

theorem Leased.pending
    (h : Leased history q) (hhead : q.messages = msg :: rest) :
    lease history msg.id = none ∧ msg.id ∉ settledIds history := by
  have hmem : msg.id ∈ q.messages.map Message.id := by rw [hhead]; exact mem_cons_self
  refine ⟨?_, fun hsettled => h.accounted.settled_not_live hsettled ?_⟩
  · rw [h.deadlines, h.accounted.queueDistinct.notInFlight hmem]
    rfl
  · rw [mem_ledger_ids]
    exact .inl hmem

private theorem lease_settledAll (messages : List Message) (held : Option Time) (id : String) :
    (messages.map fun msg => Event.settled msg.id .purged).foldl (renewLease id) held =
      if id ∈ messages.map Message.id then none else held := by
  induction messages generalizing held with
  | nil => rfl
  | cons msg rest ih =>
    rw [map_cons, foldl_cons, ih]
    by_cases hid : msg.id = id
    · simp [renewLease, hid]
    · simp [renewLease, hid, Ne.symm hid]

private theorem find?_swept {order : List String} (q : Queue) (id : String) :
    ((q.swept now order).inFlight.find? id).map Message.visibleAt =
      ((q.inFlight.find? id).map Message.visibleAt).filter fun deadline => now ≤ deadline := by
  simp only [swept, KeyedMap.find?_filter]
  cases q.inFlight.find? id with
  | none => rfl
  | some msg =>
    by_cases hexpired : msg.visibleAt < now
    · simp [Option.filter, expired, hexpired]
    · simp [Option.filter, expired, hexpired, Int.not_lt.mp hexpired]

private theorem reports_sendFree
    (hchange : Change op q reports q') : ∀ event ∈ reports, ∀ before, SendsFree before event := by
  intro event hmem before
  cases hchange with
  | purge =>
    have ⟨_, _, heq⟩ := mem_map.mp hmem
    rw [← heq]
    trivial
  | keep | configure => simp at hmem
  | _ =>
    rw [mem_singleton.mp hmem]
    trivial

private theorem change_deadlines
    (h : Leased history q) (hchange : Change op q reports q') (id : String) :
    lease (history ++ reports) id = (q'.inFlight.find? id).map Message.visibleAt := by
  rw [lease_append, h.deadlines]
  cases hchange with
  | keep hsame => rw [hsame.inFlight]; rfl
  | configure _ _ hinFlight _ => rw [hinFlight]; rfl
  | accept => rfl
  | @settle _ _ settled =>
    by_cases hid : settled = id
    · simp [renewLease, hid]
    · simp [renewLease, hid, find?_erase, Ne.symm hid]
  | @requeue _ _ requeued _ _ requeue _ hverdict =>
    cases requeue_of_nackVerdict hverdict
    by_cases hid : requeued = id
    · simp [renewLease, hid]
    · simp [renewLease, hid, find?_erase, Ne.symm hid]
  | sweep => rw [find?_swept]; rfl
  | @extend _ _ extended msg deadline hfind =>
    have hmsg : msg.id = extended := (find?_eq_some_iff.mp hfind).2
    by_cases hid : extended = id
    · simp [renewLease, hmsg, hid, renewed]
    · simp [renewLease, find?_insert, hmsg, hid, Ne.symm hid]
  | @removePending _ _ removed hpending =>
    -- The removed message was pending, so no lease is lost.
    by_cases hid : removed = id
    · have hfree := h.accounted.queueDistinct.notInFlight hpending
      simp [renewLease, hid, hid ▸ hfree]
    · simp [renewLease, hid]
  | purge =>
    rw [lease_settledAll]
    split
    · simp
    · rename_i hdead
      rw [← ledger_ids, mem_ledger_ids, not_or, Bool.not_eq_true, Option.isSome_eq_false_iff,
        Option.isNone_iff_eq_none] at hdead
      simp [hdead.2]

theorem Leased.handOut {c : Consumer}
    (h : Leased history q) (hhead : q.messages = msg :: rest) :
    Leased (history ++ [.sent ⟨c.ch, cloneMessage msg, now, c.visibilityTimeout⟩])
      (q.handOut c now msg rest) where
  accounted := h.accounted.handOut hhead
  sends := by
    have hfree := h.pending hhead
    exact h.sends.snoc hfree
  deadlines := by
    intro id
    rw [lease_append, h.deadlines]
    by_cases hid : msg.id = id
    · simp [renewLease, Queue.handOut, cloneMessage, leased, hid]
    · simp [renewLease, Queue.handOut, cloneMessage, find?_insert, leased, hid, Ne.symm hid]

theorem Leased.sameLedger (h : Leased history q)
    (hsame : SameLedger q q') : Leased history q' where
  accounted := h.accounted.sameLedger hsame
  deadlines := fun id => by rw [h.deadlines, hsame.inFlight]
  sends := h.sends

theorem Runs.leased {guard : Queue → Op → Prop} {name : String}
    (run : Runs guard (new name) history q) : Leased history q :=
  Run.invariant Leased ⟨accounted_empty rfl rfl, fun _ => rfl, AtEach.nil⟩
    (fun h step => Step.invariant Leased (fun hsame h => h.sameLedger hsame)
      (fun _ hchange hfresh h => ⟨h.accounted.change hchange hfresh, change_deadlines h hchange,
        h.sends.append (reports_sendFree hchange)⟩)
      (fun hhead _ _ h => h.handOut hhead) h step) run

/-- The deadline of a lease taken with `deadline`, after the extensions in `events`. -/
def extendedBy (id : String) (deadline : Time) (events : List Event) : Time :=
  events.foldl (fun deadline event =>
    match event with
    | .extended other renewed => if other = id then renewed else deadline
    | _ => deadline) deadline

/-- A lease taken with `deadline` has ended in `events`: by a nack that requeued, by a
settlement, or by a sweep after its deadline at that point. -/
def LeaseEnded (id : String) (deadline : Time) (events : List Event) : Prop :=
  .requeued id true ∈ events ∨ id ∈ settledIds events ∨
    ∃ before now after, events = before ++ .swept now :: after ∧ extendedBy id deadline before < now

theorem LeaseEnded.cons {event : Event} {held : Time}
    (h : LeaseEnded id held events) (hheld : extendedBy id deadline [event] = held) :
    LeaseEnded id deadline (event :: events) := by
  rcases h with hrequeued | hsettled | ⟨before, now, after, hsplit, hlate⟩
  · exact .inl (mem_cons_of_mem _ hrequeued)
  · refine .inr (.inl ?_)
    rw [← singleton_append, settledIds_append]
    exact mem_append_right _ hsettled
  · refine .inr (.inr ⟨event :: before, now, after, by rw [hsplit]; rfl, ?_⟩)
    rw [← hheld] at hlate
    exact hlate

theorem lease_ended
    (hnone : events.foldl (renewLease id) (some deadline) = none)
    (hsends : ∀ delivery, .sent delivery ∈ events → delivery.msg.id ≠ id) :
    LeaseEnded id deadline events := by
  induction events generalizing deadline with
  | nil => cases hnone
  | cons event events ih =>
    have hlater {held : Time} (hrest : events.foldl (renewLease id) (some held) = none) :
        LeaseEnded id held events :=
      ih hrest fun delivery hmem => hsends delivery (mem_cons_of_mem _ hmem)
    rw [foldl_cons] at hnone
    cases event with
    | accepted msg => exact (hlater hnone).cons rfl
    | sent delivery =>
      have hother := hsends delivery mem_cons_self
      simp only [renewLease, hother, if_false] at hnone
      exact (hlater hnone).cons rfl
    | requeued other requeue =>
      by_cases hends : other = id ∧ requeue
      · have ⟨hid, hrequeue⟩ := hends
        exact .inl (by rw [hid, hrequeue]; exact mem_cons_self)
      · simp only [renewLease, hends, if_false] at hnone
        exact (hlater hnone).cons rfl
    | swept now =>
      by_cases hlate : deadline < now
      · exact .inr (.inr ⟨[], now, events, rfl, hlate⟩)
      · simp only [renewLease, Option.filter, Int.not_lt.mp hlate, decide_true, if_true] at hnone
        exact (hlater hnone).cons rfl
    | extended other renewed =>
      by_cases hid : other = id
      · simp only [renewLease, hid, if_true] at hnone
        exact (hlater hnone).cons (by simp [extendedBy, hid])
      · simp only [renewLease, hid, if_false] at hnone
        exact (hlater hnone).cons (by simp [extendedBy, hid])
    | settled other how =>
      by_cases hid : other = id
      · exact .inr (.inl (by simp [settledIds, hid]))
      · simp only [renewLease, hid, if_false] at hnone
        exact (hlater hnone).cons rfl

/-- Between two successive sends of a message there is a nack that requeued it or
a sweep strictly after its deadline at that point; and a settled message is not
sent again. -/
theorem lease_respected {name : String} {history : List Event}
    (run : Runs anyCall (new name) history q) :
    (∀ before first between second after,
      history = before ++ .sent first :: (between ++ .sent second :: after) →
      second.msg.id = first.msg.id →
      (∀ delivery, .sent delivery ∈ between → delivery.msg.id ≠ first.msg.id) →
      .requeued first.msg.id true ∈ between ∨
        ∃ earlier now later, between = earlier ++ .swept now :: later ∧
          extendedBy first.msg.id (first.now + first.timeout) earlier < now) ∧
      ∀ before id how after, history = before ++ .settled id how :: after →
        ∀ delivery, .sent delivery ∈ after → delivery.msg.id ≠ id := by
  have hsends := run.leased.sends
  constructor
  · intro before first between second after hsplit hsame hbetween
    have hfree : SendsFree (before ++ .sent first :: between) (.sent second) :=
      hsends _ _ after (by rw [hsplit, List.append_assoc, List.cons_append])
    have ⟨hlease, hsettled⟩ := hfree
    rw [hsame, lease_append, List.foldl_cons] at hlease
    simp only [renewLease, if_true] at hlease
    rcases lease_ended hlease hbetween with hrequeued | hin | hswept
    · exact .inl hrequeued
    · refine absurd ?_ hsettled
      rw [hsame, settledIds_append, ← List.singleton_append, settledIds_append]
      exact List.mem_append_right _ (List.mem_append_right _ hin)
    · exact .inr hswept
  · intro before id how after hsplit delivery hmem hid
    have ⟨between, later, hafter⟩ := List.append_of_mem hmem
    have hfree : SendsFree (before ++ .settled id how :: between) (.sent delivery) :=
      hsends _ _ later (by rw [hsplit, hafter, List.append_assoc, List.cons_append])
    apply hfree.2
    rw [hid, settledIds_append]
    exact List.mem_append_right _ (by simp [settledIds])

theorem lease_respected_redelivery :
    ∃ before first between second after q,
      Runs anyCall (new "orders") (before ++ .sent first :: (between ++ .sent second :: after)) q ∧
      second.msg.id = first.msg.id ∧
      (.requeued first.msg.id true ∈ between ∨
        ∃ earlier now later, between = earlier ++ .swept now :: later ∧
          extendedBy first.msg.id (first.now + first.timeout) earlier < now) := by
  have hplay : ∃ q, play redelivery [] (new "orders") =
      .ok ([.accepted (order "a")] ++ .sent ⟨0, cloneMessage (order "a"), 0, 30⟩ ::
        ([.accepted (order "b"), .requeued "a" true, .sent ⟨0, cloneMessage (order "b"), 1, 30⟩,
          .settled "b" .acked] ++
        .sent ⟨0, cloneMessage (cloneMessage (renewed 1 (order "a"))), 2, 30⟩ :: []), q) :=
    ⟨_, rfl⟩
  have ⟨q, hplay⟩ := hplay
  have run := play_runs .start (guarded_anyCall _ _) hplay (by decide)
  exact ⟨_, _, _, _, _, q, run, rfl,
    (lease_respected run).1 _ _ _ _ _ rfl rfl (by simp [cloneMessage, order])⟩

end QwerQ.Queue
