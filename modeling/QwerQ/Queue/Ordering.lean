import QwerQ.Queue.Ledger

/-! Ordering keys. A key keeps the consumer it was first given until that consumer
is removed: a delivery pass only adds assignments, and what it sends under a key
goes to the consumer that holds the key when the pass is over. -/
namespace QwerQ.Queue
open List
variable {q q' : Queue} {now : Time}

structure Pins (q : Queue) (sends : List Delivery) (q' : Queue) : Prop where
  kept : ∀ assignment ∈ q.keyAssignments.entries, assignment ∈ q'.keyAssignments.entries
  sent : q'.sent = q.sent ++ sends
  pinned : ∀ delivery ∈ sends, delivery.msg.orderingKey ≠ "" →
    (delivery.msg.orderingKey, delivery.ch) ∈ q'.keyAssignments.entries

theorem Pins.of_same (hassigned : q'.keyAssignments = q.keyAssignments) (hsent : q'.sent = q.sent) :
    Pins q [] q' := by
  refine ⟨fun _ h => hassigned ▸ h, ?_, fun _ h => absurd h not_mem_nil⟩
  rw [hsent, append_nil]

variable {sends : List Delivery} {msg : Message} {rx rx' : List Bool} {result : Option Message}
  {history : List Moment}

theorem Pins.trans {q'' : Queue} {later : List Delivery} (h : Pins q sends q')
    (hnext : Pins q' later q'') : Pins q (sends ++ later) q'' := by
  refine ⟨fun a ha => hnext.kept a (h.kept a ha), ?_, fun delivery hdelivery hkey => ?_⟩
  · rw [hnext.sent, h.sent, append_assoc]
  · rcases mem_append.mp hdelivery with hold | hnew
    · exact hnext.kept _ (h.pinned delivery hold hkey)
    · exact hnext.pinned delivery hnew hkey

theorem assign_pins {key : String} {ch : Nat} (h : q.assign key = .ok (ch, q')) :
    Pins q [] q' ∧ (key, ch) ∈ q'.keyAssignments.entries := by
  unfold assign at h
  split at h
  · rename_i found hfind
    cases h
    have ⟨hmem, hkey⟩ := KeyedMap.find?_eq_some_iff.mp hfind
    refine ⟨.of_same rfl rfl, ?_⟩
    rw [← hkey]
    exact hmem
  · rename_i hnone
    split at h
    · cases h
    · rename_i c _
      cases h
      have hentries : (q.keyAssignments.insert (key, c.ch)).entries =
          q.keyAssignments.entries ++ [(key, c.ch)] := KeyedMap.entries_insert_of_find?_none hnone
      refine ⟨⟨fun a ha => ?_, (append_nil _).symm, fun _ hd => absurd hd not_mem_nil⟩, ?_⟩
      · rw [hentries]
        exact mem_append_left _ ha
      · rw [hentries]
        exact mem_append_right _ mem_cons_self

theorem Pins.of_send {c : Consumer} (hassigned : q'.keyAssignments = q.keyAssignments)
    (hsent : q'.sent = q.sent ++ [⟨c.ch, cloneMessage msg, now, c.visibilityTimeout⟩])
    (hholder : msg.orderingKey ≠ "" → (msg.orderingKey, c.ch) ∈ q.keyAssignments.entries) :
    Pins q [⟨c.ch, cloneMessage msg, now, c.visibilityTimeout⟩] q' := by
  refine ⟨fun _ h => hassigned ▸ h, hsent, fun delivery hdelivery hkey => ?_⟩
  rw [mem_singleton] at hdelivery
  subst hdelivery
  rw [hassigned]
  exact hholder hkey

theorem deliverOrdered_pins
    (h : q.deliverOrdered msg now rx = .ok (result, rx', q')) : ∃ sends, Pins q sends q' := by
  unfold deliverOrdered at h
  split at h
  · cases h
  · rename_i ch assigned hassign
    have ⟨hpins, hholder⟩ := assign_pins hassign
    split at h
    · cases h
    · rename_i c hfind
      have hch : c.ch = ch := by simpa using find?_some hfind
      split at h
      · cases h
        exact ⟨_, hpins.trans (.of_send rfl rfl fun _ => hch ▸ hholder)⟩
      · cases h
        exact ⟨_, hpins⟩

theorem roundRobin_pins (hkey : msg.orderingKey = "") (offsets : List Nat)
    (h : roundRobin msg now offsets rx q = .ok (result, rx', q')) : ∃ sends, Pins q sends q' := by
  induction offsets generalizing rx with
  | nil =>
    cases h
    exact ⟨[], .of_same rfl rfl⟩
  | cons j js ih =>
    simp only [roundRobin] at h
    split at h
    · cases h
    · split at h
      · cases h
        exact ⟨_, .of_send rfl rfl fun hne => absurd hkey hne⟩
      · exact ih h

theorem deliver_pins
    (h : q.deliver msg now rx = .ok (result, rx', q')) : ∃ sends, Pins q sends q' := by
  unfold deliver at h
  split at h
  · exact deliverOrdered_pins h
  · rename_i hkey
    exact roundRobin_pins (not_not.mp hkey) _ h

theorem deliverLoop_pins (pending : List Message)
    (h : deliverLoop now pending rx q = .ok q') : ∃ sends, Pins q sends q' := by
  induction pending generalizing q rx with
  | nil =>
    cases h
    exact ⟨[], .of_same rfl rfl⟩
  | cons msg rest ih =>
    simp only [deliverLoop] at h
    split at h
    · cases h
      exact ⟨[], .of_same rfl rfl⟩
    · split at h
      · cases h
      · rename_i hdeliver
        cases h
        exact deliver_pins hdeliver
      · rename_i hdeliver
        obtain ⟨sends, hpins⟩ := deliver_pins hdeliver
        obtain ⟨later, hlater⟩ := ih h
        exact ⟨_, hpins.trans ⟨hlater.kept, hlater.sent, hlater.pinned⟩⟩

theorem tryDeliver_pins {pass : Pass} (h : q.tryDeliver pass = .ok q') : ∃ sends, Pins q sends q' := by
  unfold tryDeliver at h
  split at h
  · cases h
    exact ⟨[], .of_same rfl rfl⟩
  · exact deliverLoop_pins _ h

theorem Pins.groups {changed : Queue}
    {method : ConsumerGroup → Go ConsumerGroup} (h : Pins q sends changed)
    (hgroups : changed.forGroups method = .ok q') : Pins q sends q' := by
  rw [forGroups_same hgroups]
  exact ⟨h.kept, h.sent, h.pinned⟩

def Op.removals (q : Queue) : Op → List Nat
  | .removeConsumer ch => if q.consumers.any (fun c => c.ch = ch) then [ch] else []
  | _ => []

theorem apply_pins {op : Op} {reports : List Event} (hop : ∀ ch, op ≠ .removeConsumer ch)
    (h : q.apply op = .ok (q', reports)) : ∃ sends, Pins q sends q' := by
  have ⟨changed, delivered, phases⟩ := apply_phases h
  have hchange : Pins q [] changed := .of_same (phases.keys hop) phases.change.sent
  have hpass : ∃ sends, Pins q sends delivered := by
    rcases phases.pass with rfl | ⟨pass, hpass⟩
    · exact ⟨[], hchange⟩
    · have ⟨sends, hpins⟩ := tryDeliver_pins hpass
      exact ⟨_, hchange.trans hpins⟩
  have ⟨sends, hpins⟩ := hpass
  refine ⟨sends, ?_⟩
  rcases phases.visits with rfl | ⟨msg, group, _, hfan⟩ | ⟨group, hsweep⟩
  · exact hpins
  · exact hpins.groups hfan
  · exact hpins.groups hsweep

inductive Moment where
  | sent (delivery : Delivery)
  | removed (ch : Nat)
  deriving DecidableEq

/-- Any call, with the consumer it removed and what it sent. -/
inductive Call : List Moment → Queue → List Moment → Queue → Prop where
  | call {history : List Moment} {q q' : Queue} {reports : List Event} (op : Op) :
      q.apply op = .ok (q', reports) →
      Call history q ((op.removals q).map .removed ++ (newSends q q').map .sent) q'

abbrev Calls := Run Call

def Moment.update (held : List (String × Nat)) : Moment → List (String × Nat)
  | .sent delivery =>
      if delivery.msg.orderingKey = "" then held
      else held ++ [(delivery.msg.orderingKey, delivery.ch)]
  | .removed ch => held.filter fun entry => entry.2 ≠ ch

/-- The keys that were sent under, with the consumer they were sent to, unless it
has been removed since. -/
def current (history : List Moment) : List (String × Nat) := history.foldl Moment.update []

theorem current_snoc (history : List Moment) (moment : Moment) :
    current (history ++ [moment]) = moment.update (current history) := by
  simp only [current, foldl_append, foldl_cons, foldl_nil]

theorem mem_current_removed {ch : Nat} {entry : String × Nat} :
    entry ∈ current (history ++ [.removed ch]) ↔ entry ∈ current history ∧ entry.2 ≠ ch := by
  rw [current_snoc, Moment.update, mem_filter, decide_eq_true_eq]

theorem mem_current_sent {delivery : Delivery} {entry : String × Nat} :
    entry ∈ current (history ++ [.sent delivery]) ↔ entry ∈ current history ∨
      delivery.msg.orderingKey ≠ "" ∧ entry = (delivery.msg.orderingKey, delivery.ch) := by
  rw [current_snoc, Moment.update]
  split
  · rename_i hkey
    simp [hkey]
  · rename_i hkey
    simp [hkey]

theorem current_of_not_removed {before between : List Moment} {first : Delivery}
    (hkey : first.msg.orderingKey ≠ "") (hstays : .removed first.ch ∉ between) :
    (first.msg.orderingKey, first.ch) ∈ current (before ++ .sent first :: between) := by
  induction between using List.reverseRecOn with
  | nil => exact mem_current_sent.mpr (.inr ⟨hkey, rfl⟩)
  | append_singleton between moment ih =>
    rw [mem_append, not_or] at hstays
    have hheld := ih hstays.1
    rw [← cons_append, ← append_assoc]
    cases moment with
    | sent delivery => exact mem_current_sent.mpr (.inl hheld)
    | removed ch =>
      exact mem_current_removed.mpr ⟨hheld, fun heq => hstays.2 (heq ▸ mem_cons_self)⟩

theorem current_named (history : List Moment) : ∀ entry ∈ current history, entry.1 ≠ "" := by
  induction history using List.reverseRecOn with
  | nil => exact fun _ h => absurd h not_mem_nil
  | append_singleton history moment ih =>
    intro entry hentry
    cases moment with
    | sent delivery =>
      rcases mem_current_sent.mp hentry with hold | ⟨hkey, rfl⟩
      · exact ih entry hold
      · exact hkey
    | removed ch =>
      exact ih entry (mem_current_removed.mp hentry).1

/-- A delivery under a key goes to the consumer that the key was last sent to. -/
def Sticks (before : List Moment) : Moment → Prop
  | .sent delivery => ∀ entry ∈ current before, entry.1 = delivery.msg.orderingKey →
      entry.2 = delivery.ch
  | .removed _ => True

structure Sticky (history : List Moment) (q : Queue) : Prop where
  calm : q.Calm
  assigned : ∀ entry ∈ current history, entry ∈ q.keyAssignments.entries
  sticks : AtEach Sticks history

theorem sticks_sends
    {assignments : KeyedMap (Prod.fst : String × Nat → String)} (hsticks : AtEach Sticks history)
    (hassigned : ∀ entry ∈ current history, entry ∈ assignments.entries)
    (hpinned : ∀ delivery ∈ sends, delivery.msg.orderingKey ≠ "" →
      (delivery.msg.orderingKey, delivery.ch) ∈ assignments.entries) :
    AtEach Sticks (history ++ sends.map .sent) ∧
      ∀ entry ∈ current (history ++ sends.map .sent), entry ∈ assignments.entries := by
  induction sends generalizing history with
  | nil =>
    rw [map_nil, append_nil]
    exact ⟨hsticks, hassigned⟩
  | cons delivery rest ih =>
    have ⟨hfirst, hrest⟩ := forall_mem_cons.mp hpinned
    have hsent : Sticks history (.sent delivery) := by
      intro entry hentry hkey
      have hholder := hfirst (hkey ▸ current_named history entry hentry)
      exact congrArg Prod.snd (assignments.eq_of_key_eq (hassigned entry hentry) hholder hkey)
    rw [map_cons, ← singleton_append, ← append_assoc]
    refine ih (hsticks.snoc hsent) (fun entry hentry => ?_) hrest
    rcases mem_current_sent.mp hentry with hold | ⟨hkey, rfl⟩
    · exact hassigned entry hold
    · exact hfirst hkey

theorem Sticky.remove (ch : Nat) (h : Sticky history q) :
    Sticky (history ++ ((Op.removeConsumer ch).removals q).map .removed) (q.removeConsumer ch) := by
  refine ⟨removeConsumer_calm ch h.calm, ?_, ?_⟩
  · intro entry hentry
    by_cases hthere : q.consumers.any (fun c => c.ch = ch)
    · rw [Op.removals, if_pos hthere] at hentry
      have ⟨hheld, hne⟩ := mem_current_removed.mp hentry
      rw [removeConsumer, if_pos hthere]
      exact mem_filter.mpr ⟨h.assigned entry hheld, by simpa using hne⟩
    · rw [Op.removals, if_neg hthere, map_nil, append_nil] at hentry
      rw [removeConsumer, if_neg hthere]
      exact h.assigned entry hentry
  · refine h.sticks.append fun moment hmoment _ => ?_
    have ⟨_, _, heq⟩ := mem_map.mp hmoment
    rw [← heq]
    trivial

theorem Sticky.call {history moments : List Moment} (h : Sticky history q)
    (step : Call history q moments q') : Sticky (history ++ moments) q' := by
  cases step with
  | call op happly =>
    obtain ⟨_, _, hcall, hcalm⟩ := apply_calm op h.calm
    rw [happly] at hcall
    cases hcall
    by_cases hremove : ∃ ch, op = .removeConsumer ch
    · obtain ⟨ch, rfl⟩ := hremove
      cases happly
      have hsends : newSends q (q.removeConsumer ch) = [] := by
        unfold newSends removeConsumer
        split <;> exact drop_length
      rw [hsends, map_nil, append_nil]
      exact h.remove ch
    · have hop : ∀ ch, op ≠ .removeConsumer ch := fun ch heq => hremove ⟨ch, heq⟩
      obtain ⟨sends, hpins⟩ := apply_pins hop happly
      have hsends : newSends q q' = sends := by rw [newSends, hpins.sent, drop_left]
      have hkept : op.removals q = [] := by
        cases op with
        | removeConsumer ch => exact absurd rfl (hop ch)
        | _ => rfl
      rw [hsends, hkept, map_nil, nil_append]
      obtain ⟨hsticks, hassigned⟩ := sticks_sends h.sticks
        (fun entry hentry => hpins.kept entry (h.assigned entry hentry)) hpins.pinned
      exact ⟨hcalm, hassigned, hsticks⟩

theorem Calls.sticky {name : String} (run : Calls (new name) history q) :
    Sticky history q :=
  run.invariant Sticky ⟨calm_new name, fun _ h => absurd h not_mem_nil, .nil⟩
    fun h step => h.call step

/-- In every run the keys are assigned to registered consumers, no call panics, and two
deliveries under one key go to one consumer, unless it was removed in between. -/
theorem ordering_key_sticks {name : String} {history : List Moment}
    (run : Calls (new name) history q) :
    (∀ assignment ∈ q.keyAssignments.entries, assignment.2 ∈ q.consumers.map Consumer.ch) ∧
      (∀ op, ∃ q' reports, q.apply op = .ok (q', reports)) ∧
      ∀ before between after first second,
        history = before ++ .sent first :: between ++ .sent second :: after →
        first.msg.orderingKey ≠ "" → second.msg.orderingKey = first.msg.orderingKey →
        .removed first.ch ∉ between → second.ch = first.ch := by
  have h := run.sticky
  refine ⟨h.calm.routed, fun op => ?_, ?_⟩
  · have ⟨q', reports, hcall, _⟩ := apply_calm op h.calm
    exact ⟨q', reports, hcall⟩
  · intro before between after first second hsplit hkey hsame hstays
    have hsticks : Sticks (before ++ .sent first :: between) (.sent second) :=
      h.sticks _ _ _ hsplit
    exact (hsticks _ (current_of_not_removed hkey hstays) hsame.symm).symm

private def keyed (id : String) : Message := { order id with orderingKey := "customer" }

theorem ordering_key_sticks_two_consumers :
    ∃ history q first second, Calls (new "orders") history q ∧ q.consumers.length = 2 ∧
      history = [.sent first, .sent second] ∧ first.msg.id ≠ second.msg.id ∧
      second.ch = first.ch := by
  have joined : Calls (new "orders") _ _ :=
    .next (.next .start (.call (.dequeue 30 ⟨0, []⟩) rfl)) (.call (.dequeue 30 ⟨0, []⟩) rfl)
  have run : Calls (new "orders") _ _ :=
    .next (.next (.next joined (.call (.enqueue (keyed "a") quiet) rfl)) (.call (.receive 1) rfl))
      (.call (.enqueue (keyed "b") quiet) rfl)
  exact ⟨_, _, ⟨1, cloneMessage (keyed "a"), 0, 30⟩, ⟨1, cloneMessage (keyed "b"), 0, 30⟩, run,
    rfl, rfl, by decide,
    (ordering_key_sticks run).2.2 [] [] [] ⟨1, cloneMessage (keyed "a"), 0, 30⟩
      ⟨1, cloneMessage (keyed "b"), 0, 30⟩ rfl (by decide) rfl List.not_mem_nil⟩

end QwerQ.Queue
