import QwerQ.Queue.Ledger

/-! Retry limits. A nack consults the attempt counter of the message, a sweep
does not: the limit holds in the runs whose sweeps find no expired message that
has used up its retries. -/
namespace QwerQ.Queue
open List
variable {q : Queue} {history : List Event} {policy : FailurePolicy} {maxRetries : UInt32}

def limited (name : String) (policy : FailurePolicy) (maxRetries : UInt32) : Queue :=
  ((new name).setFailurePolicy policy).setMaxRetries maxRetries

def keepsSettings (_ : Queue) (op : Op) : Prop := op.configures = false

/-- As `keepsSettings`, and no sweep requeues a message that has used up its
retries. A message enters with a counter that can still count. -/
def withinRetries (q : Queue) (op : Op) : Prop :=
  op.configures = false ∧
  match op with
  | .requeueExpired sweep _ =>
      ∀ msg ∈ q.inFlight.entries, msg.visibleAt < sweep.now → msg.attempt < q.maxRetries
  | .enqueue msg _ => msg.attempt.toNat + 1 < UInt32.size
  | .enqueueDirect msg _ => msg.attempt.toNat + 1 < UInt32.size
  | _ => True

def sends (history : List Event) (id : String) : Nat :=
  history.countP fun
    | .sent delivery => delivery.msg.id = id
    | _ => false

@[simp] theorem sends_append (left right : List Event) (id : String) :
    sends (left ++ right) id = sends left id + sends right id :=
  countP_append

@[simp] theorem sends_sent (delivery : Delivery) (id : String) :
    sends [.sent delivery] id = if delivery.msg.id = id then 1 else 0 := by
  simp [sends, countP_cons]

variable {op : Op} {reports : List Event} {q' : Queue} {msg : Message}

theorem sends_reports {q : Queue}
    (h : Change op q reports q') (id : String) : sends reports id = 0 := by
  cases h with
  | purge => simp [sends, countP_map, Function.comp_def]
  | _ => rfl

theorem attempt_lt_of_requeue {requeue : Bool} {attempt : UInt32}
    (hpolicy : policy = .dlq ∨ policy = .drop)
    (h : nackVerdict policy maxRetries requeue attempt = .requeue) : attempt < maxRetries := by
  cases requeue_of_nackVerdict h
  by_contra hle
  rw [UInt32.not_lt] at hle
  rcases hpolicy with rfl | rfl <;> simp [nackVerdict, hle] at h

/-- Every send counts in the message's attempt counter, and a message waits for
another send only below the limit. -/
structure Limited (policy : FailurePolicy) (maxRetries : UInt32) (history : List Event)
    (q : Queue) : Prop where
  accounted : Accounted history q
  policy_eq : q.failurePolicy = policy
  limit_eq : q.maxRetries = maxRetries
  unsent : ∀ id, id ∉ acceptedIds history → sends history id = 0
  counted : ∀ msg ∈ q.live, sends history msg.id ≤ msg.attempt.toNat
  pending : ∀ msg ∈ q.messages, msg.attempt < maxRetries ∨
    sends history msg.id = 0 ∧ msg.attempt.toNat + 1 < UInt32.size
  bound : ∀ id, sends history id ≤ maxRetries.toNat

theorem Limited.sameLedger (h : Limited policy maxRetries history q)
    (hsame : SameLedger q q') : Limited policy maxRetries history q' where
  accounted := h.accounted.sameLedger hsame
  policy_eq := by rw [hsame.failurePolicy, h.policy_eq]
  limit_eq := by rw [hsame.maxRetries, h.limit_eq]
  unsent := h.unsent
  counted := by rw [live, hsame.messages, hsame.inFlight]; exact h.counted
  pending := by rw [hsame.messages]; exact h.pending
  bound := h.bound

theorem Limited.next_attempt (h : Limited policy maxRetries history q)
    (hlimit : 1 ≤ maxRetries.toNat) (hmsg : msg ∈ q.messages) :
    (msg.attempt + 1).toNat = msg.attempt.toNat + 1 ∧
      sends history msg.id + 1 ≤ maxRetries.toNat := by
  have hcounted := h.counted msg (mem_append_left _ hmsg)
  have hsize := maxRetries.toNat_lt_size
  have hwrap (hlt : msg.attempt.toNat + 1 < UInt32.size) :
      (msg.attempt + 1).toNat = msg.attempt.toNat + 1 := by
    rw [UInt32.toNat_add]
    exact Nat.mod_eq_of_lt hlt
  rcases h.pending msg hmsg with hbelow | ⟨hunsent, hcounts⟩
  · rw [UInt32.lt_iff_toNat_lt] at hbelow
    exact ⟨hwrap (by omega), by omega⟩
  · exact ⟨hwrap hcounts, by omega⟩

theorem Distinct.head_alone {rest : List Message} (h : q.Distinct)
    (hhead : q.messages = msg :: rest) : ∀ other ∈ rest ++ q.inFlight.entries, other.id ≠ msg.id := by
  unfold Distinct at h
  rw [ledger_ids, live, hhead, cons_append, map_cons, nodup_cons] at h
  intro other hother heq
  exact h.1 (heq ▸ mem_map_of_mem hother)

theorem Limited.handOut {c : Consumer} {now : Time} {msg : Message} {rest : List Message}
    (h : Limited policy maxRetries history q) (hlimit : 1 ≤ maxRetries.toNat)
    (hhead : q.messages = msg :: rest) :
    Limited policy maxRetries
      (history ++ [.sent ⟨c.ch, cloneMessage msg, now, c.visibilityTimeout⟩])
      (q.handOut c now msg rest) := by
  have hmsg : msg ∈ q.messages := by rw [hhead]; exact mem_cons_self
  have hcounted := h.counted msg (mem_append_left _ hmsg)
  have hnext := h.next_attempt hlimit hmsg
  have hothers := h.accounted.queueDistinct.head_alone hhead
  have hsends (id : String) :
      sends (history ++ [.sent ⟨c.ch, cloneMessage msg, now, c.visibilityTimeout⟩]) id =
        sends history id + if msg.id = id then 1 else 0 := by
    rw [sends_append, sends_sent]
    rfl
  refine ⟨h.accounted.handOut hhead, h.policy_eq, h.limit_eq, ?_, ?_, ?_, ?_⟩
  · intro id hid
    rw [acceptedIds_append] at hid
    have hold : id ∉ acceptedIds history := fun hin => hid (mem_append_left _ hin)
    have hne : msg.id ≠ id := by
      have ⟨sent, hsent, hbody⟩ := h.accounted.bodies msg.body
        (mem_map_of_mem (mem_append_left _ hmsg))
      rintro rfl
      exact hold (mem_acceptedIds.mpr ⟨sent, hsent, congrArg Body.id hbody⟩)
    rw [hsends, h.unsent id hold, if_neg hne]
  · intro other hother
    rw [hsends]
    simp only [live, Queue.handOut, mem_append, KeyedMap.mem_entries_insert] at hother
    have hkept (hin : other ∈ rest ++ q.inFlight.entries) (hlive : other ∈ q.live) :
        (sends history other.id + if msg.id = other.id then 1 else 0) ≤ other.attempt.toNat := by
      rw [if_neg (hothers other hin).symm]
      exact h.counted other hlive
    rcases hother with hrest | ⟨hold, _⟩ | hnew
    · refine hkept (mem_append_left _ hrest) (mem_append_left _ ?_)
      rw [hhead]
      exact mem_cons_of_mem _ hrest
    · exact hkept (mem_append_right _ hold) (mem_append_right _ hold)
    · rw [hnew, leased_id, if_pos rfl]
      change _ ≤ (msg.attempt + 1).toNat
      omega
  · intro other hother
    rw [hsends, if_neg (hothers other (mem_append_left _ hother)).symm]
    exact h.pending other (by rw [hhead]; exact mem_cons_of_mem _ hother)
  · intro id
    rw [hsends]
    have hbound := h.bound id
    split
    · rename_i hid
      rw [← hid]
      exact hnext.2
    · exact hbound

theorem Limited.of_messages
    (h : Limited policy maxRetries history q) (haccounted : Accounted (history ++ reports) q')
    (hreports : ∀ id, sends reports id = 0) (hpolicy : q'.failurePolicy = q.failurePolicy)
    (hlimit : q'.maxRetries = q.maxRetries)
    (hcounted : ∀ msg ∈ q'.live, sends history msg.id ≤ msg.attempt.toNat)
    (hpending : ∀ msg ∈ q'.messages, msg.attempt < maxRetries ∨
      sends history msg.id = 0 ∧ msg.attempt.toNat + 1 < UInt32.size) :
    Limited policy maxRetries (history ++ reports) q' := by
  have hsends (id : String) : sends (history ++ reports) id = sends history id := by
    rw [sends_append, hreports, Nat.add_zero]
  refine ⟨haccounted, hpolicy.trans h.policy_eq, hlimit.trans h.limit_eq, ?_, ?_, ?_, ?_⟩
  · intro id hid
    rw [acceptedIds_append] at hid
    rw [hsends, h.unsent id fun hin => hid (mem_append_left _ hin)]
  · intro msg hmsg
    rw [hsends]
    exact hcounted msg hmsg
  · intro msg hmsg
    rw [hsends]
    exact hpending msg hmsg
  · intro id
    rw [hsends]
    exact h.bound id

theorem withinRetries.counts (h : withinRetries q op)
    (hop : op.message? = some msg) : msg.attempt.toNat + 1 < UInt32.size := by
  cases op with
  | enqueue | enqueueDirect =>
    cases hop
    exact h.2
  | _ => cases hop

theorem Limited.change
    (h : Limited policy maxRetries history q) (hpolicy : policy = .dlq ∨ policy = .drop)
    (hguard : withinRetries q op) (hchange : Change op q reports q')
    (hfresh : ∀ msg, .accepted msg ∈ reports → msg.id ∉ acceptedIds history) :
    Limited policy maxRetries (history ++ reports) q' := by
  have haccounted := h.accounted.change hchange hfresh
  have ⟨hsame, hlimit⟩ := hchange.settings hguard.1
  refine h.of_messages haccounted (sends_reports hchange) hsame hlimit ?_ ?_
  · intro msg hmsg
    rcases hchange.mem_live hmsg with ⟨haccepted, _⟩ | ⟨old, hold, hbody, hattempt⟩
    · rw [h.unsent msg.id (hfresh msg haccepted)]
      exact Nat.zero_le _
    · have hid : msg.id = old.id := congrArg Body.id hbody
      rw [hid, hattempt]
      exact h.counted old hold
  · intro msg hmsg
    rcases hchange.mem_messages hmsg with
      hold | ⟨haccepted, hop⟩ | ⟨requeue, hverdict⟩ | ⟨sweep, group, rfl, old, hin, hlate, hattempt⟩
    · exact h.pending msg hold
    · exact .inr ⟨h.unsent msg.id (hfresh msg haccepted), hguard.counts hop⟩
    · rw [h.policy_eq, h.limit_eq] at hverdict
      exact .inl (attempt_lt_of_requeue hpolicy hverdict)
    · have hbelow := hguard.2 old hin hlate
      rw [h.limit_eq, ← hattempt] at hbelow
      exact .inl hbelow

theorem Runs.limited {name : String} (hpolicy : policy = .dlq ∨ policy = .drop)
    (hlimit : 1 ≤ maxRetries) (run : Runs withinRetries (limited name policy maxRetries) history q) :
    Limited policy maxRetries history q := by
  have hone : 1 ≤ maxRetries.toNat := UInt32.le_iff_toNat_le.mp hlimit
  refine Run.invariant (Limited policy maxRetries) ?_ (fun h step => ?_) run
  · exact ⟨accounted_empty rfl rfl, rfl, rfl, fun _ _ => rfl,
      by simp [live, Queue.limited, new, setFailurePolicy, setMaxRetries],
      by simp [Queue.limited, new, setFailurePolicy, setMaxRetries], fun _ => Nat.zero_le _⟩
  · exact Step.invariant (Limited policy maxRetries) (fun hsame h => h.sameLedger hsame)
      (fun hguard hchange hfresh h => h.change hpolicy hguard hchange hfresh)
      (fun hhead _ _ h => h.handOut hone hhead) h step

/-- How a nack past the limit settles a message under each of the two policies. -/
def failure (policy : FailurePolicy) : Settlement := if policy = .dlq then .toDLQ else .dropped

theorem nack_settles {id : String} (requeue : Bool) (now : Time) (pass : Pass)
    (hpolicy : q.failurePolicy = .dlq ∨ q.failurePolicy = .drop)
    (hfind : q.inFlight.find? id = some msg) (hused : q.maxRetries ≤ msg.attempt) :
    q.apply (.nack id requeue none none now pass) =
      .ok ({ q with inFlight := q.inFlight.erase id }, [.settled id (failure q.failurePolicy)]) := by
  rcases hpolicy with hdlq | hdrop
  · have hverdict : nackVerdict q.failurePolicy q.maxRetries requeue msg.attempt = .toDLQ := by
      cases requeue <;> simp [nackVerdict, hdlq, hused]
    rw [failure, if_pos hdlq]
    simp only [apply, nackWithHooks, hfind, hverdict]
    rfl
  · have hverdict : nackVerdict q.failurePolicy q.maxRetries requeue msg.attempt = .drop := by
      cases requeue <;> simp [nackVerdict, hdrop, hused]
    rw [failure, if_neg (by simp [hdrop])]
    simp only [apply, nackWithHooks, hfind, hverdict]
    rfl

/-- In a run whose sweeps find no expired message that has used up its retries,
no message is sent more than `maxRetries` times; after its last send it does not
wait for another one, and its next nack settles it as the policy says. -/
theorem sends_le_maxRetries {name : String} (hpolicy : policy = .dlq ∨ policy = .drop)
    (hlimit : 1 ≤ maxRetries) (run : Runs withinRetries (limited name policy maxRetries) history q) :
    ∀ id, sends history id ≤ maxRetries.toNat ∧
      (sends history id = maxRetries.toNat → id ∉ q.messages.map Message.id ∧
        ∀ msg, q.inFlight.find? id = some msg → ∀ requeue now pass, ∃ q',
          q.apply (.nack id requeue none none now pass) = .ok (q', [.settled id (failure policy)])) := by
  have h := run.limited hpolicy hlimit
  have hone : 1 ≤ maxRetries.toNat := UInt32.le_iff_toNat_le.mp hlimit
  intro id
  refine ⟨h.bound id, fun hused => ⟨?_, ?_⟩⟩
  · intro hmem
    have ⟨msg, hmsg, hid⟩ := List.mem_map.mp hmem
    have hcounted := h.counted msg (List.mem_append_left _ hmsg)
    rw [← hid] at hused
    rcases h.pending msg hmsg with hbelow | ⟨hunsent, _⟩
    · rw [UInt32.lt_iff_toNat_lt] at hbelow
      omega
    · omega
  · intro msg hfind requeue now pass
    have ⟨hmsg, hid⟩ := KeyedMap.find?_eq_some_iff.mp hfind
    have hcounted := h.counted msg (List.mem_append_right _ hmsg)
    rw [hid, hused] at hcounted
    have hlast : q.maxRetries ≤ msg.attempt := by
      rw [h.limit_eq]
      exact UInt32.le_iff_toNat_le.mpr hcounted
    have hsettles := nack_settles requeue now pass (h.policy_eq.symm ▸ hpolicy) hfind hlast
    rw [h.policy_eq] at hsettles
    exact ⟨_, hsettles⟩

/-- A consumer receives a message and lets its visibility timeout pass. -/
def expiry : List Op :=
  [.dequeue 30 ⟨0, []⟩, .enqueue (order "a") quiet, .receive 0,
    .requeueExpired ⟨31, [], ⟨31, []⟩⟩ fun _ => ⟨31, [], ⟨31, []⟩⟩]

theorem sends_le_maxRetries_expiry :
    ∃ history q, Runs withinRetries (limited "orders" .dlq 2) history q ∧ sends history "a" = 2 ∧
      "a" ∉ q.messages.map Message.id := by
  have hplay : ∃ history q, play expiry [] (limited "orders" .dlq 2) = .ok (history, q) ∧
      (acceptedIds history).Nodup ∧ sends history "a" = 2 := ⟨_, _, rfl, by decide, by decide⟩
  have ⟨history, q, hplay, hfresh, htwo⟩ := hplay
  have hguard : Guarded withinRetries expiry (limited "orders" .dlq 2) :=
    ⟨⟨rfl, trivial⟩, ⟨rfl, by decide⟩, ⟨rfl, trivial⟩, ⟨rfl, by decide⟩, trivial⟩
  have run := play_runs .start hguard hplay hfresh
  have hlast := (sends_le_maxRetries (.inl rfl) (by decide) run "a").2
  exact ⟨history, q, run, htwo, (hlast htwo).1⟩

/-- With a limit of one, the sweep after the first timeout sends the message a
second time. -/
theorem sends_exceed_maxRetries :
    ∃ history q, Runs keepsSettings (limited "orders" .dlq 1) history q ∧ sends history "a" = 2 := by
  have hplay : ∃ history q, play expiry [] (limited "orders" .dlq 1) = .ok (history, q) ∧
      (acceptedIds history).Nodup ∧ sends history "a" = 2 := ⟨_, _, rfl, by decide, by decide⟩
  have ⟨history, q, hplay, hfresh, htwo⟩ := hplay
  have hguard : Guarded keepsSettings expiry (limited "orders" .dlq 1) :=
    guarded_of_forall (by simp [expiry, keepsSettings, Op.configures]) _
  exact ⟨history, q, play_runs .start hguard hplay hfresh, htwo⟩

end QwerQ.Queue
