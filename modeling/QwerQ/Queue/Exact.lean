import QwerQ.Queue.Delivery

/-! A delivery pass in full: which messages it hands out, to whom, and why it stops. The
selects of a pass meet the receives `rx` in turn, so that the channel a select looks at has
a free slot if it is empty or its receiver comes in at that moment. -/
namespace QwerQ.Queue
open List
variable {q q' : Queue} {msg : Message} {now : Time} {rx rx' : List Bool} {c : Consumer}

/-- The consumer's channel has a free slot at the select that comes next. -/
def Free (rx : List Bool) (c : Consumer) : Prop := (rx.headD false || c.buffer.isNone) = true

theorem full_of_not_free (h : ¬Free rx c) : c.buffer.isSome = true := by
  unfold Free at h
  cases hbuffer : c.buffer with
  | none => simp [hbuffer] at h
  | some held => rfl

/-- The channel that the key is assigned to. A key that has none yet goes by its hash. -/
def assignedChannel (key : String) (q : Queue) : Option Nat :=
  match q.keyAssignments.find? key with
  | some (_, ch) => some ch
  | none => (q.consumers[(fnv32a key).toNat % q.consumers.length]?).map Consumer.ch

def assignee (key : String) (q : Queue) : Option Consumer :=
  (q.assignedChannel key).bind fun ch => q.consumers.find? fun c => c.ch = ch

def assigned (key : String) (ch : Nat) (q : Queue) : Queue :=
  if (q.keyAssignments.find? key).isSome then q
  else { q with keyAssignments := q.keyAssignments.insert (key, ch) }

def inTurn (q : Queue) (j : Nat) : Option Consumer :=
  q.consumers[(q.nextIdx + j) % q.consumers.length]?

/-- The consumer that the message goes to, the receives that are left and the queue with
its routing moved on: an ordered message goes to the consumer of its key, another one to
the first consumer with a free slot, and `nextIdx` then points just past that consumer. -/
inductive Target (msg : Message) (q : Queue) (rx : List Bool) : Consumer → List Bool → Queue → Prop where
  | ordered {c : Consumer} : msg.orderingKey ≠ "" → q.assignee msg.orderingKey = some c →
      Free rx c → Target msg q rx c rx.tail (q.assigned msg.orderingKey c.ch)
  | unordered {c : Consumer} {j : Nat} : msg.orderingKey = "" → j < q.consumers.length →
      q.inTurn j = some c → Free (rx.drop j) c →
      (∀ i < j, ∀ other, q.inTurn i = some other → ¬Free (rx.drop i) other) →
      Target msg q rx c (rx.drop (j + 1))
        { q with nextIdx := ((q.nextIdx + j) % q.consumers.length + 1) % q.consumers.length }

/-- The head of the pending list goes to its target and in flight. -/
inductive TargetStep (now : Time) :
    List Delivery → Queue × List Bool → List Delivery → Queue × List Bool → Prop where
  | handOut {history : List Delivery} {q routed : Queue} {rx rx' : List Bool} {c : Consumer}
      {msg : Message} {rest : List Message} :
      q.messages = msg :: rest → msg.visibleAt ≤ now → Target msg q rx c rx' routed →
      TargetStep now history (q, rx) [⟨c.ch, cloneMessage msg, now, c.visibilityTimeout⟩]
        ({ routed.send c msg now with
            messages := rest
            inFlight := routed.inFlight.insert (leased msg (now + c.visibilityTimeout)) }, rx')

abbrev HandsOut (now : Time) := Run (TargetStep now)

inductive Stops (now : Time) (q : Queue) : Prop where
  | empty : q.messages = [] → Stops now q
  | noConsumer : q.consumers = [] → Stops now q
  | early {msg : Message} : q.messages.head? = some msg → now < msg.visibleAt → Stops now q
  | assigneeFull {msg : Message} {c : Consumer} : q.messages.head? = some msg →
      msg.orderingKey ≠ "" → q.assignee msg.orderingKey = some c → c.buffer.isSome → Stops now q
  | allFull {msg : Message} : q.messages.head? = some msg → msg.orderingKey = "" →
      (∀ c ∈ q.consumers, c.buffer.isSome) → Stops now q

/-- How a pass ends: the last attempt, which nobody takes, may leave the assignment of the
head's key behind. -/
inductive Ends (q : Queue) : Queue → Prop where
  | same : Ends q q
  | assigned {msg : Message} {c : Consumer} : q.messages.head? = some msg →
      q.assignee msg.orderingKey = some c → Ends q (q.assigned msg.orderingKey c.ch)

theorem assign_eq (key : String) (q : Queue) :
    q.assign key = match q.assignedChannel key with
      | none => .error .indexOutOfRange
      | some ch => .ok (ch, q.assigned key ch) := by
  unfold assign assignedChannel assigned
  cases hfind : q.keyAssignments.find? key with
  | some assignment => rfl
  | none =>
    cases hget : q.consumers[(fnv32a key).toNat % q.consumers.length]? with
    | none => rfl
    | some c => rfl

theorem assigned_consumers (key : String) (ch : Nat) (q : Queue) :
    (q.assigned key ch).consumers = q.consumers := by
  unfold assigned
  split <;> rfl

theorem assigned_messages (key : String) (ch : Nat) (q : Queue) :
    (q.assigned key ch).messages = q.messages := by
  unfold assigned
  split <;> rfl

theorem assigned_sent (key : String) (ch : Nat) (q : Queue) : (q.assigned key ch).sent = q.sent := by
  unfold assigned
  split <;> rfl

theorem Target.same {routed : Queue} (h : Target msg q rx c rx' routed) :
    routed.messages = q.messages ∧ routed.sent = q.sent := by
  cases h with
  | ordered => exact ⟨assigned_messages _ _ q, assigned_sent _ _ q⟩
  | unordered => exact ⟨rfl, rfl⟩

theorem assignee_assigned {key : String} (h : q.assignee key = some c) :
    (q.assigned key c.ch).assignee key = some c := by
  unfold assignee at h ⊢
  rw [Option.bind_eq_some_iff] at h
  have ⟨ch, hchannel, hfind⟩ := h
  have hch : c.ch = ch := by simpa using find?_some hfind
  have hkept : (q.assigned key c.ch).assignedChannel key = some ch := by
    unfold assignedChannel assigned
    unfold assignedChannel at hchannel
    cases hkey : q.keyAssignments.find? key with
    | some assignment =>
      simp only [hkey, Option.isSome_some, if_true] at hchannel ⊢
      exact hchannel
    | none => simp [hch]
  rw [hkept, Option.bind_some, assigned_consumers]
  exact hfind

theorem assignee_of_routed (key : String) (h : q.Routed) (hc : q.consumers ≠ []) :
    ∃ c, q.assignee key = some c := by
  have ⟨ch, assigned, hassign, hch⟩ := assign_ok key h hc
  rw [assign_eq] at hassign
  unfold assignee
  cases hchannel : q.assignedChannel key with
  | none => simp [hchannel] at hassign
  | some channel =>
    simp only [hchannel, Except.ok.injEq, Prod.mk.injEq] at hassign
    obtain ⟨rfl, rfl⟩ := hassign
    rw [assigned_consumers] at hch
    have ⟨c, hmem, hch⟩ := mem_map.mp hch
    have hsome : (q.consumers.find? fun c => c.ch = channel).isSome :=
      find?_isSome.mpr ⟨c, hmem, by simpa using hch⟩
    exact Option.isSome_iff_exists.mp hsome

theorem deliverOrdered_eq (h : q.assignee msg.orderingKey = some c) :
    q.deliverOrdered msg now rx =
      let routed := q.assigned msg.orderingKey c.ch
      if rx.headD false || c.buffer.isNone then
        .ok (some { msg with visibleAt := now + c.visibilityTimeout }, rx.tail, routed.send c msg now)
      else .ok (none, rx.tail, routed) := by
  unfold assignee at h
  rw [Option.bind_eq_some_iff] at h
  have ⟨ch, hchannel, hfind⟩ := h
  have hch : c.ch = ch := by simpa using find?_some hfind
  subst hch
  unfold deliverOrdered
  simp only [assign_eq, hchannel, assigned_consumers, hfind]

def Busy (rx : List Bool) (offsets : List Nat) (q : Queue) : Prop :=
  ∀ i j, offsets[i]? = some j → ∀ c, q.inTurn j = some c → ¬Free (rx.drop i) c

theorem busy_cons {j : Nat} {offsets : List Nat} (hturn : q.inTurn j = some c) (hbusy : ¬Free rx c)
    (hrest : Busy rx.tail offsets q) : Busy rx (j :: offsets) q := by
  intro i other hget c' hother
  cases i with
  | zero =>
    obtain rfl : j = other := by simpa using hget
    obtain rfl : c = c' := by simpa [hturn] using hother
    exact hbusy
  | succ i =>
    have hrest := hrest i other (by simpa using hget) c' hother
    rwa [drop_tail] at hrest

/-- The consumer loop takes the first free slot that it comes to, and finds none only if
every channel is full. -/
theorem roundRobin_cases (hc : q.consumers ≠ []) (msg : Message) (now : Time) (offsets : List Nat)
    (rx : List Bool) :
    (∃ before j after c, offsets = before ++ j :: after ∧ Busy rx before q ∧ q.inTurn j = some c ∧
      Free (rx.drop before.length) c ∧
      roundRobin msg now offsets rx q =
        .ok (some { msg with visibleAt := now + c.visibilityTimeout }, rx.drop (before.length + 1),
          { q.send c msg now with
            nextIdx := ((q.nextIdx + j) % q.consumers.length + 1) % q.consumers.length })) ∨
    Busy rx offsets q ∧ ∃ rx', roundRobin msg now offsets rx q = .ok (none, rx', q) := by
  induction offsets generalizing rx with
  | nil => exact .inr ⟨fun i j hget => by simp at hget, rx, rfl⟩
  | cons j offsets ih =>
    have hlt : (q.nextIdx + j) % q.consumers.length < q.consumers.length :=
      Nat.mod_lt _ (length_pos_iff.mpr hc)
    have ⟨c, hturn⟩ : ∃ c, q.inTurn j = some c := ⟨_, getElem?_eq_getElem hlt⟩
    have hget : q.consumers[(q.nextIdx + j) % q.consumers.length]? = some c := hturn
    simp only [roundRobin, hget]
    by_cases hfree : (rx.headD false || c.buffer.isNone) = true
    · refine .inl ⟨[], j, offsets, c, rfl, fun i other hnone => by simp at hnone, hturn, hfree, ?_⟩
      rw [if_pos hfree, length_nil, drop_one]
    · rw [if_neg hfree]
      rcases ih rx.tail with ⟨before, k, after, taker, hsplit, hbusy, hk, hslot, hresult⟩ | ⟨hbusy, hresult⟩
      · refine .inl ⟨j :: before, k, after, taker, by rw [hsplit, cons_append],
          busy_cons hturn hfree hbusy, hk, ?_, ?_⟩
        · rwa [drop_tail] at hslot
        · rw [hresult, drop_tail, length_cons]
      · exact .inr ⟨busy_cons hturn hfree hbusy, hresult⟩

theorem exists_offset {n i : Nat} (start : Nat) (hi : i < n) : ∃ j < n, (start + j) % n = i := by
  have hbase : start % n < n := Nat.mod_lt _ (by omega)
  by_cases hle : start % n ≤ i
  · refine ⟨i - start % n, by omega, ?_⟩
    rw [Nat.add_mod, Nat.mod_eq_of_lt (show i - start % n < n by omega), Nat.add_sub_cancel' hle,
      Nat.mod_eq_of_lt hi]
  · refine ⟨i + n - start % n, by omega, ?_⟩
    rw [Nat.add_mod, Nat.mod_eq_of_lt (show i + n - start % n < n by omega),
      show start % n + (i + n - start % n) = i + n by omega, Nat.add_mod_right, Nat.mod_eq_of_lt hi]

theorem full_of_busy (h : Busy rx (List.range q.consumers.length) q) :
    ∀ c ∈ q.consumers, c.buffer.isSome := by
  intro c hmem
  have ⟨i, hi, hget⟩ := mem_iff_getElem.mp hmem
  have ⟨j, hj, hat⟩ := exists_offset q.nextIdx hi
  refine full_of_not_free (h j j (by simp [hj]) c ?_)
  rw [inTurn, hat, getElem?_eq_getElem hi, hget]

theorem deliver_target (h : q.Routed) (hc : q.consumers ≠ []) (hhead : q.messages.head? = some msg)
    (now : Time) (rx : List Bool) :
    (∃ c rx' routed, Target msg q rx c rx' routed ∧ q.deliver msg now rx =
      .ok (some { msg with visibleAt := now + c.visibilityTimeout }, rx', routed.send c msg now)) ∨
    ∃ rx' q', q.deliver msg now rx = .ok (none, rx', q') ∧ Ends q q' ∧ Stops now q' := by
  unfold deliver
  split
  · rename_i hkey
    have ⟨c, hassignee⟩ := assignee_of_routed msg.orderingKey h hc
    rw [deliverOrdered_eq hassignee]
    by_cases hfree : Free rx c
    · exact .inl ⟨c, rx.tail, _, .ordered hkey hassignee hfree, if_pos hfree⟩
    · have hhead' := hhead
      rw [← assigned_messages msg.orderingKey c.ch q] at hhead'
      exact .inr ⟨rx.tail, _, if_neg hfree, .assigned hhead hassignee,
        .assigneeFull hhead' hkey (assignee_assigned hassignee) (full_of_not_free hfree)⟩
  · rename_i hkey
    have hkey : msg.orderingKey = "" := not_not.mp hkey
    rcases roundRobin_cases hc msg now (List.range q.consumers.length) rx with
      ⟨before, j, after, c, hsplit, hbusy, hturn, hfree, hresult⟩ | ⟨hbusy, rx', hresult⟩
    · -- the offsets are counted from zero, so the loop is in round `j`
      have hj : (List.range q.consumers.length)[before.length]? = some j := by
        rw [hsplit, getElem?_append_right (Nat.le_refl _), Nat.sub_self]
        rfl
      have ⟨hlt, hsame⟩ := List.getElem?_eq_some_iff.mp hj
      rw [length_range] at hlt
      rw [getElem_range] at hsame
      subst hsame
      refine .inl ⟨c, _, _, .unordered hkey hlt hturn hfree ?_, hresult⟩
      intro i hi other hother
      have hbefore : before[i]? = some i := by
        have hrange : (List.range q.consumers.length)[i]? = some i := by
          simp [Nat.lt_trans hi hlt]
        rwa [hsplit, getElem?_append_left hi] at hrange
      exact hbusy i i hbefore other hother
    · exact .inr ⟨rx', q, hresult, .same, .allFull hhead hkey (full_of_busy hbusy)⟩

theorem deliverLoop_target {start : Queue × List Bool} {sends : List Delivery} (pending : List Message)
    (hpending : q.messages = pending) (h : q.Routed) (hc : q.consumers ≠ [])
    (run : HandsOut now start sends (q, rx)) :
    ∃ q' last rx' sends', deliverLoop now pending rx q = .ok q' ∧
      HandsOut now start sends' (last, rx') ∧ Ends last q' ∧ Stops now q' := by
  induction pending generalizing q rx sends with
  | nil => exact ⟨q, q, rx, sends, rfl, run, .same, .empty hpending⟩
  | cons msg rest ih =>
    have hhead : q.messages.head? = some msg := by rw [hpending, head?_cons]
    rw [deliverLoop]
    split
    · rename_i hearly
      exact ⟨q, q, rx, sends, rfl, run, .same, .early hhead hearly⟩
    · rename_i hdue
      rcases deliver_target h hc hhead now rx with
        ⟨c, rx', routed, htarget, hdeliver⟩ | ⟨rx', q', hdeliver, hends, hstops⟩
      · obtain ⟨hrouted, hc'⟩ := (deliver_attempt hdeliver).routed h hc
        rw [hdeliver]
        exact ih rfl hrouted hc' (run.next (.handOut hpending (Int.not_lt.mp hdue) htarget))
      · rw [hdeliver]
        exact ⟨q', q, rx, sends, rfl, run, hends, hstops⟩

theorem HandsOut.handed {sends : List Delivery} {last : Queue}
    (run : HandsOut now (q, rx) sends (last, rx')) :
    ∃ handed, q.messages = handed ++ last.messages ∧ last.sent = q.sent ++ sends ∧
      sends.map Delivery.msg = handed.map cloneMessage := by
  refine run.invariant (fun sends state => ∃ handed, q.messages = handed ++ state.1.messages ∧
    state.1.sent = q.sent ++ sends ∧ sends.map Delivery.msg = handed.map cloneMessage)
    ⟨[], rfl, (append_nil _).symm, rfl⟩ ?_
  rintro history before events after ⟨handed, hmessages, hsent, hsends⟩ step
  cases step with
  | @handOut before routed _ _ c msg rest hhead _ htarget =>
    refine ⟨handed ++ [msg], ?_, ?_, ?_⟩
    · rw [hmessages, hhead, append_assoc]
      rfl
    · change routed.sent ++ _ = _
      rw [htarget.same.2, hsent, append_assoc]
    · rw [map_append, map_append, hsends]
      rfl

/-- A pass returns. It has handed out a first part of the pending list, each message once
and to its target, and it has stopped because there was nothing more to do. -/
theorem tryDeliver_exact (pass : Pass) (h : q.Routed) :
    ∃ q' last rx sends handed, q.tryDeliver pass = .ok q' ∧ q.messages = handed ++ q'.messages ∧
      q'.sent = q.sent ++ sends ∧ sends.map Delivery.msg = handed.map cloneMessage ∧
      HandsOut pass.now (q, pass.rx) sends (last, rx) ∧ Ends last q' ∧ Stops pass.now q' := by
  have hpass : ∃ q' last rx sends, q.tryDeliver pass = .ok q' ∧
      HandsOut pass.now (q, pass.rx) sends (last, rx) ∧ Ends last q' ∧ Stops pass.now q' := by
    unfold tryDeliver
    split
    · rename_i hidle
      rw [Bool.or_eq_true, List.isEmpty_iff, List.isEmpty_iff] at hidle
      refine ⟨q, q, pass.rx, [], rfl, .start, .same, ?_⟩
      rcases hidle with hconsumers | hmessages
      · exact .noConsumer hconsumers
      · exact .empty hmessages
    · rename_i hwork
      refine deliverLoop_target q.messages rfl h (fun hnil => hwork ?_) .start
      rw [hnil]
      rfl
  obtain ⟨q', last, rx, sends, hresult, run, hends, hstops⟩ := hpass
  obtain ⟨handed, hmessages, hsent, hsends⟩ := run.handed
  have hsame : q'.messages = last.messages ∧ q'.sent = last.sent := by
    cases hends with
    | same => exact ⟨rfl, rfl⟩
    | assigned => exact ⟨assigned_messages _ _ last, assigned_sent _ _ last⟩
  rw [← hsame.1] at hmessages
  rw [← hsame.2] at hsent
  exact ⟨q', last, rx, sends, handed, hresult, hmessages, hsent, hsends, run, hends, hstops⟩

/-- Two consumers of which the first is full, with `nextIdx` past the end and one message
pending for the key `k`, which goes by its hash, after two without a key. -/
def halfFull : Queue :=
  let msg (id key : String) : Message := ⟨id, "q", [], ∅, 0, 0, 0, key, 0⟩
  { new "q" with
    messages := [msg "a" "", msg "b" "", msg "c" "k"]
    consumers := [⟨0, 30, some (msg "z" "")⟩, ⟨1, 30, none⟩]
    nextIdx := 6
    made := 2 }

/-- The first message passes over the full consumer, the second waits. -/
theorem tryDeliver_exact_halfFull :
    (halfFull.tryDeliver ⟨0, []⟩).toOption.map (fun q => (q.sent.map Delivery.ch, q.nextIdx)) =
        some ([1], 0) ∧
      ∃ q' last rx sends handed, halfFull.tryDeliver ⟨0, []⟩ = .ok q' ∧
        halfFull.messages = handed ++ q'.messages ∧ q'.sent = halfFull.sent ++ sends ∧
        sends.map Delivery.msg = handed.map cloneMessage ∧
        HandsOut 0 (halfFull, []) sends (last, rx) ∧ Ends last q' ∧ Stops 0 q' :=
  ⟨by decide, tryDeliver_exact ⟨0, []⟩ fun assignment hmem => absurd hmem List.not_mem_nil⟩

end QwerQ.Queue
