import QwerQ.Queue.Runs

/-! Conservation: what a queue has accepted is pending, in flight or settled, and
never in two of these places. The changes a call can make are accounted for one
by one on the bodies of the messages. -/
namespace QwerQ.Queue
open List KeyedMap

variable {q q' : Queue} {id : String} {msg : Message} {rest : List Message} {op : Op}
  {c : Consumer} {now : Time} {history reports : List Event}

theorem ledger_eq (q : Queue) :
    q.ledger = q.messages.map Message.body ++ q.inFlight.entries.map Message.body := by
  rw [ledger, live, map_append]

theorem ledger_congr (hmessages : q'.messages = q.messages)
    (hinFlight : q'.inFlight = q.inFlight) : q'.ledger = q.ledger := by
  rw [ledger_eq, ledger_eq, hmessages, hinFlight]

theorem accept_ledger (q : Queue) (msg : Message) :
    ledger { q with messages := q.messages ++ [msg] } |>.Perm (msg.body :: q.ledger) := by
  simp only [ledger_eq, map_append, map_cons, map_nil, append_assoc,
    singleton_append]
  exact perm_middle

theorem settle_ledger (hfind : q.inFlight.find? id = some msg) :
    q.ledger.Perm (msg.body :: ledger { q with inFlight := q.inFlight.erase id }) := by
  have hentries := (entries_perm_erase hfind).map Message.body
  simp only [ledger_eq]
  exact (hentries.append_left _).trans perm_middle

theorem requeue_ledger (hfind : q.inFlight.find? id = some msg) (now : Time) :
    ledger { q with
      inFlight := q.inFlight.erase id
      messages := q.messages ++ [renewed now msg] } |>.Perm q.ledger :=
  (accept_ledger { q with inFlight := q.inFlight.erase id } (renewed now msg)).trans
    (settle_ledger hfind).symm

theorem extend_ledger (hfind : q.inFlight.find? id = some msg) (deadline : Time) :
    ledger { q with inFlight := q.inFlight.insert (renewed deadline msg) } |>.Perm q.ledger := by
  have hid : msg.id = id := (find?_eq_some_iff.mp hfind).2
  have hinsert : (q.inFlight.insert (renewed deadline msg)).entries.Perm
      (renewed deadline msg :: (q.inFlight.erase id).entries) := by
    have hperm := entries_perm_insert q.inFlight (renewed deadline msg)
    rwa [renewed_id, hid] at hperm
  have hbodies := hinsert.map Message.body
  have hentries := (entries_perm_erase hfind).map Message.body
  simp only [ledger_eq]
  exact (hbodies.trans hentries.symm).append_left _

theorem swept_ledger (q : Queue) (now : Time) (order : List String) :
    (q.swept now order).ledger.Perm q.ledger := by
  have hsplit : ((q.inFlight.inOrder order).filter (expired now) ++
      q.inFlight.entries.filter fun msg => !expired now msg).Perm q.inFlight.entries :=
    (((q.inFlight.inOrder_perm order).filter _).append_right _).trans
      (filter_append_perm (expired now) q.inFlight.entries)
  have hbodies := hsplit.map Message.body
  simp only [ledger_eq, swept, map_append, map_map, entries_filter,
    append_assoc] at hbodies ⊢
  exact hbodies.append_left _

theorem removePending_ledger (hpending : id ∈ q.messages.map Message.id) :
    ∃ msg : Message, msg.id = id ∧
      q.ledger.Perm (msg.body :: ledger { q with
        messages := q.messages.eraseP fun msg => msg.id = id }) := by
  have ⟨found, hmem, hid⟩ := mem_map.mp hpending
  have ⟨msg, before, after, _, hmsg, hsplit, herase⟩ :=
    exists_of_eraseP hmem (p := fun msg => msg.id = id) (by simpa using hid)
  refine ⟨msg, by simpa using hmsg, ?_⟩
  simp only [ledger_eq, herase]
  rw [hsplit]
  simp only [map_append, map_cons, append_assoc, cons_append]
  exact perm_middle

theorem Change.ledger_subperm
    (h : Change op q reports q') (hop : op.message? = none) : q'.ledger.Subperm q.ledger := by
  cases h with
  | keep hsame => exact (List.Perm.of_eq (ledger_congr hsame.messages hsame.inFlight)).subperm
  | configure _ hmessages hinFlight _ =>
    exact (List.Perm.of_eq (ledger_congr hmessages hinFlight)).subperm
  | accept hmsg =>
    rw [hop] at hmsg
    cases hmsg
  | settle hfind => exact (List.Perm.subperm_left (settle_ledger hfind)).mpr .cons_self
  | requeue hfind _ => exact (requeue_ledger hfind _).subperm
  | sweep => exact (swept_ledger q _ _).subperm
  | extend hfind => exact (extend_ledger hfind _).subperm
  | removePending hpending =>
    have ⟨_, _, hledger⟩ := removePending_ledger hpending
    exact (List.Perm.subperm_left hledger).mpr .cons_self
  | purge => exact nil_subperm

theorem handOut_subperm
    (hhead : q.messages = msg :: rest) : (q.handOut c now msg rest).ledger.Subperm q.ledger := by
  have hinsert := (entries_perm_insert q.inFlight
    (leased msg (now + c.visibilityTimeout))).map Message.body
  have herase : ((q.inFlight.erase msg.id).entries.map Message.body).Sublist
      (q.inFlight.entries.map Message.body) := filter_sublist.map _
  have hledger : q.ledger = msg.body :: (rest.map Message.body ++ q.inFlight.entries.map Message.body) := by
    rw [ledger_eq, hhead]
    rfl
  rw [hledger, ledger_eq]
  refine (List.Perm.subperm_right ((hinsert.append_left _).trans perm_middle)).mpr ?_
  exact (subperm_cons _).mpr ((subperm_append_left _).mpr herase.subperm)

@[simp] theorem acceptedIds_append (left right : List Event) :
    acceptedIds (left ++ right) = acceptedIds left ++ acceptedIds right :=
  filterMap_append

@[simp] theorem settledIds_append (left right : List Event) :
    settledIds (left ++ right) = settledIds left ++ settledIds right :=
  filterMap_append

theorem mem_acceptedIds :
    id ∈ acceptedIds history ↔ ∃ msg, .accepted msg ∈ history ∧ msg.id = id := by
  simp only [acceptedIds, mem_filterMap]
  constructor
  · rintro ⟨event, hmem, heq⟩
    cases event with
    | accepted msg => exact ⟨msg, hmem, by simpa using heq⟩
    | _ => cases heq
  · rintro ⟨msg, hmem, rfl⟩
    exact ⟨_, hmem, rfl⟩

private theorem purge_reports (messages : List Message) :
    acceptedIds (messages.map fun msg => .settled msg.id .purged) = [] ∧
      settledIds (messages.map fun msg => .settled msg.id .purged) = messages.map Message.id := by
  induction messages with
  | nil => exact ⟨rfl, rfl⟩
  | cons msg rest ih =>
    exact ⟨ih.1, congrArg (msg.id :: ·) ih.2⟩

structure Accounted (history : List Event) (q : Queue) : Prop where
  distinct : (acceptedIds history).Nodup
  places : (acceptedIds history).Perm (q.ledger.map Body.id ++ settledIds history)
  bodies : ∀ body ∈ q.ledger, ∃ msg, .accepted msg ∈ history ∧ msg.body = body

theorem Accounted.of_ledger (h : Accounted history q)
    (hledger : q'.ledger.Perm q.ledger) : Accounted history q' where
  distinct := h.distinct
  places := h.places.trans (((hledger.map Body.id).symm).append_right _)
  bodies := fun body hbody => h.bodies body (hledger.mem_iff.mp hbody)

theorem Accounted.of_settled
    (h : Accounted history q) (haccepted : acceptedIds reports = [])
    (hsettled : q.ledger.map Body.id |>.Perm (settledIds reports ++ q'.ledger.map Body.id))
    (hsub : ∀ body ∈ q'.ledger, body ∈ q.ledger) : Accounted (history ++ reports) q' where
  distinct := by rw [acceptedIds_append, haccepted, append_nil]; exact h.distinct
  places := by
    rw [acceptedIds_append, haccepted, append_nil, settledIds_append]
    refine h.places.trans ((hsettled.append_right _).trans ?_)
    rw [append_assoc]
    refine perm_append_comm.trans ?_
    rw [append_assoc]
  bodies := fun body hbody =>
    have ⟨msg, hmem, hmsg⟩ := h.bodies body (hsub body hbody)
    ⟨msg, mem_append_left _ hmem, hmsg⟩

theorem Accounted.queueDistinct (h : Accounted history q) : q.Distinct :=
  (nodup_append.mp (h.places.nodup_iff.mp h.distinct)).1

theorem Accounted.settled_not_live (h : Accounted history q)
    (hsettled : id ∈ settledIds history) : id ∉ q.ledger.map Body.id :=
  fun hlive => (nodup_append.mp (h.places.nodup_iff.mp h.distinct)).2.2 id hlive id hsettled rfl

theorem Accounted.settle {q' : Queue} {how : Settlement}
    (h : Accounted history q) (hid : msg.id = id)
    (hledger : q.ledger.Perm (msg.body :: q'.ledger)) :
    Accounted (history ++ [.settled id how]) q' :=
  h.of_settled rfl (by simpa [settledIds, hid] using hledger.map Body.id)
    (fun body hbody => hledger.mem_iff.mpr (mem_cons_of_mem _ hbody))

theorem Accounted.accept (msg : Message) (h : Accounted history q)
    (hfresh : msg.id ∉ acceptedIds history) :
    Accounted (history ++ [.accepted msg]) { q with messages := q.messages ++ [msg] } := by
  have hledger := accept_ledger q msg
  refine ⟨?_, ?_, ?_⟩
  · rw [acceptedIds_append]
    refine nodup_append.mpr ⟨h.distinct, nodup_singleton _, ?_⟩
    rintro id hin other hother rfl
    rw [acceptedIds, filterMap_cons, filterMap_nil, mem_singleton] at hother
    exact hfresh (hother ▸ hin)
  · rw [acceptedIds_append, settledIds_append]
    have hids := (hledger.map Body.id).symm
    refine (h.places.append_right [msg.id]).trans ?_
    refine perm_append_comm.trans ?_
    simpa [settledIds] using hids.append_right (settledIds history)
  · intro body hbody
    rcases mem_cons.mp (hledger.mem_iff.mp hbody) with rfl | hold
    · exact ⟨msg, mem_append_right _ mem_cons_self, rfl⟩
    · obtain ⟨other, hmem, hother⟩ := h.bodies body hold
      exact ⟨other, mem_append_left _ hmem, hother⟩

theorem Accounted.change
    (h : Accounted history q) (hchange : Change op q reports q')
    (hfresh : ∀ msg, .accepted msg ∈ reports → msg.id ∉ acceptedIds history) :
    Accounted (history ++ reports) q' := by
  cases hchange with
  | keep hsame =>
    rw [append_nil]
    exact h.of_ledger (List.Perm.of_eq (ledger_congr hsame.messages hsame.inFlight))
  | configure _ hmessages hinFlight _ =>
    rw [append_nil]
    exact h.of_ledger (List.Perm.of_eq (ledger_congr hmessages hinFlight))
  | accept _ => exact h.accept _ (hfresh _ mem_cons_self)
  | settle hfind => exact h.settle (find?_eq_some_iff.mp hfind).2 (settle_ledger hfind)
  | requeue hfind _ =>
    exact (h.of_ledger (requeue_ledger hfind _)).of_settled rfl (List.Perm.refl _) fun _ hb => hb
  | sweep =>
    exact (h.of_ledger (swept_ledger q _ _)).of_settled rfl (List.Perm.refl _) fun _ hb => hb
  | extend hfind =>
    exact (h.of_ledger (extend_ledger hfind _)).of_settled rfl (List.Perm.refl _) fun _ hb => hb
  | removePending hpending =>
    have ⟨msg, hid, hledger⟩ := removePending_ledger hpending
    exact h.settle hid hledger
  | purge =>
    have ⟨haccepted, hsettled⟩ := purge_reports q.live
    refine h.of_settled haccepted ?_ (by simp [ledger_eq])
    rw [hsettled, ledger_ids]
    simp [ledger_eq]

theorem Accounted.sameLedger (h : Accounted history q)
    (hsame : SameLedger q q') : Accounted history q' :=
  h.of_ledger (List.Perm.of_eq (ledger_congr hsame.messages hsame.inFlight))

theorem Accounted.handOut
    (h : Accounted history q) (hhead : q.messages = msg :: rest) :
    Accounted (history ++ [.sent ⟨c.ch, cloneMessage msg, now, c.visibilityTimeout⟩])
      (q.handOut c now msg rest) :=
  (h.of_ledger (handOut_ledger h.queueDistinct hhead)).of_settled rfl (List.Perm.refl _)
    fun _ hbody => hbody

theorem accounted_empty (hmessages : q.messages = []) (hinFlight : q.inFlight = ∅) :
    Accounted [] q where
  distinct := nodup_nil
  places := by simp [ledger_eq, hmessages, hinFlight, acceptedIds, settledIds]
  bodies := by simp [ledger_eq, hmessages, hinFlight]

theorem Runs.accounted {guard : Queue → Op → Prop} {name : String}
    (run : Runs guard (new name) history q) : Accounted history q :=
  Run.invariant Accounted (accounted_empty rfl rfl)
    (fun h step => Step.invariant Accounted (fun hsame h => h.sameLedger hsame)
      (fun _ hchange hfresh h => h.change hchange hfresh) (fun hhead _ _ h => h.handOut hhead)
      h step) run

def places (history : List Event) (q : Queue) (id : String) : Nat :=
  (q.messages.map Message.id).count id + (q.inFlight.entries.map Message.id).count id +
    (settledIds history).count id

/-- Whatever methods run in whatever order, each accepted message is in exactly
one place and keeps its body; in flight it is filed under its own id; and every
further call returns. -/
theorem accepted_in_one_place {name : String} {history : List Event}
    (run : Runs anyCall (new name) history q) :
    (∀ msg, .accepted msg ∈ history → places history q msg.id = 1) ∧
      (∀ msg ∈ q.live, ∃ sent, .accepted sent ∈ history ∧ msg.body = sent.body) ∧
      (∀ id msg, q.inFlight.find? id = some msg → msg.id = id) ∧
      ∀ op, ∃ result, q.apply op = .ok result := by
  have h := run.accounted
  refine ⟨?_, ?_, ?_, ?_⟩
  · intro msg hmem
    have hcount := h.places.count_eq msg.id
    rw [List.count_eq_one_of_mem h.distinct (mem_acceptedIds.mpr ⟨msg, hmem, rfl⟩), ledger_ids, live,
      List.map_append, List.count_append, List.count_append] at hcount
    exact hcount.symm
  · intro msg hmem
    obtain ⟨sent, hsent, hbody⟩ := h.bodies msg.body (List.mem_map_of_mem hmem)
    exact ⟨sent, hsent, hbody.symm⟩
  · intro id msg hfind
    exact (KeyedMap.find?_eq_some_iff.mp hfind).2
  · intro op
    obtain ⟨q', reports, hcall, _⟩ := apply_calm op (run.calm (calm_new name))
    exact ⟨_, hcall⟩

def order (id : String) : Message where
  id := id
  queue := "orders"
  payload := [1]
  headers := ∅
  attempt := 0
  publishedAt := 0
  visibleAt := 0
  orderingKey := ""
  sequence := 0

def quiet : Env := ⟨⟨0, []⟩, fun _ => ⟨0, []⟩⟩

/-- One consumer, two messages: the first is redelivered after a nack, the second
acked in between. -/
def redelivery : List Op :=
  [.dequeue 30 ⟨0, []⟩, .enqueue (order "a") quiet, .enqueue (order "b") quiet, .receive 0,
    .nack "a" true none none 1 ⟨1, []⟩, .ack "b" none ⟨2, [true]⟩]

theorem accepted_in_one_place_redelivery :
    ∃ history q, Runs anyCall (new "orders") history q ∧
      (play redelivery [] (new "orders") = .ok (history, q)) ∧
      places history q "a" = 1 ∧ places history q "b" = 1 := by
  have hplay : ∃ history q, play redelivery [] (new "orders") = .ok (history, q) ∧
      (acceptedIds history).Nodup ∧ .accepted (order "a") ∈ history ∧
      .accepted (order "b") ∈ history := ⟨_, _, rfl, by decide, by decide, by decide⟩
  have ⟨history, q, hplay, hfresh, ha, hb⟩ := hplay
  have run := play_runs .start (guarded_anyCall _ _) hplay hfresh
  have h := (accepted_in_one_place run).1
  exact ⟨history, q, run, hplay, h _ ha, h _ hb⟩

end QwerQ.Queue
