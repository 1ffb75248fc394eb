import QwerQ.Group.Runs

/-! Where a group's messages are. The ids it holds and the ids it has settled
are the ids it has accepted, as long as every delivery has a single taker. -/
namespace QwerQ.ConsumerGroup
open List KeyedMap
variable {g : ConsumerGroup}

def ids (g : ConsumerGroup) : List String :=
  g.messages.map (fun msg => msg.id) ++ g.inFlight.entries.map fun entry => entry.msg.id

def putBack (clock : String → Time) (g : ConsumerGroup) (entry : InFlightEntry) : ConsumerGroup :=
  { g with
    inFlight := g.inFlight.erase entry.msg.id
    messages := g.messages ++ [{ entry.msg with visibleAt := clock entry.msg.id }] }

variable {id : String} {entry : InFlightEntry} {now : Time} {g' : ConsumerGroup}
  {history : List Event}

theorem entry_perm (h : g.inFlight.find? id = some entry) :
    (g.inFlight.entries.map fun other => other.msg.id).Perm
      (id :: (g.inFlight.erase id).entries.map fun other => other.msg.id) := by
  have hid := (find?_eq_some_iff.mp h).2
  have hperm := (entries_perm_erase h).map fun other => other.msg.id
  rwa [map_cons, hid] at hperm

theorem settle_ids {pass : Option Pass}
    (h : g.inFlight.find? id = some entry) : (id :: (g.settle id pass).group.ids).Perm g.ids := by
  refine List.Perm.trans ?_ ((entry_perm h).symm.append_left (g.messages.map fun msg => msg.id))
  exact perm_middle.symm

theorem putBack_ids (clock : String → Time)
    (h : entry ∈ g.inFlight.entries) : (g.putBack clock entry).ids.Perm g.ids := by
  have hfind : g.inFlight.find? entry.msg.id = some entry := find?_eq_some_iff.mpr ⟨h, rfl⟩
  refine List.Perm.trans ?_ ((entry_perm hfind).symm.append_left (g.messages.map fun msg => msg.id))
  simp [ids, putBack]

theorem foldl_putBack_ids (takes : InFlightEntry → Prop) [DecidablePred takes]
    (clock : String → Time) {visited : List InFlightEntry}
    (hnodup : (visited.map fun entry => entry.msg.id).Nodup)
    (hvisited : ∀ entry ∈ visited, entry ∈ g.inFlight.entries) :
    (visited.foldl (fun g entry => if takes entry then g.putBack clock entry else g) g).ids.Perm
      g.ids := by
  induction visited generalizing g with
  | nil => exact List.Perm.refl _
  | cons first rest ih =>
    rw [map_cons, nodup_cons] at hnodup
    rw [foldl_cons]
    split
    · refine (ih hnodup.2 ?_).trans (putBack_ids clock (hvisited first mem_cons_self))
      intro entry hentry
      have hne : entry.msg.id ≠ first.msg.id := fun heq =>
        hnodup.1 (heq ▸ mem_map_of_mem hentry)
      simp only [putBack, entries_erase, mem_filter]
      exact ⟨hvisited entry (mem_cons_of_mem _ hentry), by simpa using hne⟩
    · exact ih hnodup.2 fun entry hentry => hvisited entry (mem_cons_of_mem _ hentry)

theorem foldl_inOrder_ids (takes : InFlightEntry → Prop) [DecidablePred takes]
    (clock : String → Time) (order : List String) (g : ConsumerGroup) :
    ((g.inFlight.inOrder order).foldl
      (fun g entry => if takes entry then g.putBack clock entry else g) g).ids.Perm g.ids :=
  foldl_putBack_ids takes clock
    (g.inFlight.inOrder_nodup order)
    fun _ hentry => KeyedMap.mem_inOrder.mp hentry

theorem requeueForMemberLocked_ids (memberID : String) (clock : String → Time)
    (order : List String) (g : ConsumerGroup) :
    (g.requeueForMemberLocked memberID clock order).ids.Perm g.ids :=
  foldl_inOrder_ids (fun entry => entry.memberID = memberID) clock order g

theorem expire_ids (sweep : Sweep) (g : ConsumerGroup) :
    ((g.inFlight.inOrder sweep.order).foldl (expire sweep.now) g).ids.Perm g.ids :=
  foldl_inOrder_ids (fun entry => entry.msg.visibleAt < sweep.now) (fun _ => sweep.now) sweep.order g

theorem reap_ids (dead : List GroupMember) (clock : String → Time) (order : List String)
    (g : ConsumerGroup) :
    (dead.foldl (fun g m => g.requeueForMemberLocked m.id clock order) g).ids.Perm g.ids := by
  induction dead generalizing g with
  | nil => exact List.Perm.refl _
  | cons m dead ih => exact (ih _).trans (requeueForMemberLocked_ids m.id clock order g)

theorem handOver_ids {idx : Nat} {m : GroupMember} {msg : GroupMessage} {rest : List GroupMessage}
    (hdistinct : g.ids.Nodup) (hhead : g.messages = msg :: rest) :
    (g.handOver now idx m msg rest).ids.Perm g.ids := by
  have hfree : g.inFlight.find? msg.id = none := by
    rw [find?_eq_none_iff_notMem]
    intro hin
    rw [ids, hhead] at hdistinct
    exact (nodup_append.mp hdistinct).2.2 msg.id mem_cons_self msg.id hin rfl
  have hentries : (g.inFlight.insert ⟨leased now m msg, m.id⟩).entries =
      g.inFlight.entries ++ [⟨leased now m msg, m.id⟩] :=
    entries_insert_of_find?_none hfree
  simp only [ids, handOver]
  rw [hentries, hhead, map_append, ← append_assoc]
  exact perm_append_comm

theorem HandsOver.ids {sends : List GroupSend}
    (run : HandsOver now g sends g') (hdistinct : g.ids.Nodup) : g'.ids.Perm g.ids :=
  run.invariant (fun _ g' => g'.ids.Perm g.ids) (List.Perm.refl _)
    (fun h step => by
      cases step with
      | handOver hhead => exact (handOver_ids (h.nodup_iff.mpr hdistinct) hhead).trans h)

def acceptedIds (history : List Event) : List String :=
  history.filterMap fun
    | .accepted msg => some msg.id
    | _ => none

def settledIds (history : List Event) : List String :=
  history.filterMap fun
    | .settled id => some id
    | _ => none

@[simp] theorem acceptedIds_append (left right : List Event) :
    acceptedIds (left ++ right) = acceptedIds left ++ acceptedIds right :=
  filterMap_append

@[simp] theorem settledIds_append (left right : List Event) :
    settledIds (left ++ right) = settledIds left ++ settledIds right :=
  filterMap_append

@[simp] theorem acceptedIds_sent (sends : List GroupSend) : acceptedIds (sends.map .sent) = [] := by
  simp [acceptedIds]

@[simp] theorem settledIds_sent (sends : List GroupSend) : settledIds (sends.map .sent) = [] := by
  simp [settledIds]

def newSends (g g' : ConsumerGroup) : List GroupSend := g'.sent.drop g.sent.length

/-- One call. The messages a run accepts have distinct ids. -/
inductive Step (guard : ConsumerGroup → Op → Prop) :
    List Event → ConsumerGroup → List Event → ConsumerGroup → Prop where
  | call {history reports : List Event} {g g' : ConsumerGroup} (op : Op) :
      guard g op → g.apply op = .ok (g', reports) →
      (∀ msg, .accepted msg ∈ reports → msg.id ∉ acceptedIds history) →
      Step guard history g (reports ++ (newSends g g').map .sent) g'

abbrev Runs (guard : ConsumerGroup → Op → Prop) := Run (Step guard)

def anyCall (_ : ConsumerGroup) (_ : Op) : Prop := True

/-- Each message that the call's delivery pass hands out has a single taker. -/
def singleTakers (g : ConsumerGroup) (op : Op) : Prop :=
  ∀ pass, (g.effect op).pass = some pass →
    singleTaker pass.now (g.effect op).group.messages pass.rx (g.effect op).group = true

theorem apply_handsOver {op : Op} (h : singleTakers g op) :
    ∃ g' now sends, g.apply op = .ok (g', (g.effect op).reports) ∧
      HandsOver now (g.effect op).group sends g' := by
  rw [apply_eq_finish, Effect.finish]
  cases hpass : (g.effect op).pass with
  | none => exact ⟨_, 0, [], rfl, .start⟩
  | some pass =>
    obtain ⟨g', sends, hdeliver, run⟩ := tryDeliver_handsOver (h pass hpass)
    exact ⟨g', pass.now, sends, by simp only [hdeliver]; rfl, run⟩

theorem useEvents_ids (use : Use) (g : ConsumerGroup) :
    acceptedIds (g.useEvents use) = [] ∧ settledIds (g.useEvents use) = [] := by
  cases use with
  | read ch => simp only [useEvents]; cases g.unread.find? _ <;> exact ⟨rfl, rfl⟩
  | abandon ch => exact ⟨rfl, rfl⟩
  | assign object queue => simp only [useEvents]; split <;> exact ⟨rfl, rfl⟩

theorem effect_ids (op : Op) (g : ConsumerGroup) :
    (acceptedIds (g.effect op).reports ++ g.ids).Perm
      (settledIds (g.effect op).reports ++ (g.effect op).group.ids) := by
  have hsettle {id : String} {entry : InFlightEntry} (pass : Option Pass)
      (h : g.inFlight.find? id = some entry) :
      (acceptedIds (g.settle id pass).reports ++ g.ids).Perm
        (settledIds (g.settle id pass).reports ++ (g.settle id pass).group.ids) :=
    (settle_ids h).symm
  cases op with
  | enqueue msg pass =>
    have hids : (msg.id :: g.ids).Perm (g.effect (.enqueue msg pass)).group.ids := by
      simp only [effect, ids, map_append, map_cons, map_nil, append_assoc]
      exact perm_middle.symm
    exact hids
  | addMember | receive => exact List.Perm.refl _
  | removeMember memberID clock order pass =>
    simp only [effect]
    split
    · exact List.Perm.refl _
    · rename_i i _
      have hids := requeueForMemberLocked_ids memberID clock order (g.setMembers (g.members.eraseIdx i))
      exact hids.symm
  | ack id hook pass =>
    simp only [effect]
    cases hfind : g.inFlight.find? id with
    | none => exact List.Perm.refl _
    | some entry =>
      cases hook with
      | none => exact hsettle (some pass) hfind
      | some err => exact List.Perm.refl _
  | nack id requeue maxRetries policy hook now pass =>
    simp only [effect]
    split
    · exact List.Perm.refl _
    · rename_i entry hfind
      split
      · exact hsettle none hfind
      · exact hsettle none hfind
      · exact List.Perm.refl _
      · obtain ⟨hmem, hid⟩ := find?_eq_some_iff.mp hfind
        have hback := putBack_ids (fun _ => now) hmem
        rw [putBack, hid] at hback
        exact hback.symm
  | heartbeat memberID now =>
    simp only [effect, heartbeat]
    split <;> exact List.Perm.refl _
  | reapDeadMembers now clock order pass => exact (reap_ids _ clock order g).symm
  | requeueExpired sweep => exact (expire_ids sweep g).symm
  | use use =>
    obtain ⟨haccepted, hsettled⟩ := useEvents_ids use g
    simp only [effect, haccepted, hsettled]
    exact List.Perm.refl _

theorem foldl_same {α β : Type} {visit : ConsumerGroup → α → ConsumerGroup}
    (field : ConsumerGroup → β) (visited : List α) (hvisit : ∀ g a, field (visit g a) = field g) :
    field (visited.foldl visit g) = field g := by
  induction visited generalizing g with
  | nil => rfl
  | cons first rest ih => rw [foldl_cons, ih, hvisit]

/-- What only deliveries and the uses of an object change. -/
def record (g : ConsumerGroup) : String × List GroupSend × List GroupSend :=
  (g.name, g.sent, g.unread)

def unreadBy : Op → ConsumerGroup → List GroupSend
  | .use use, g => g.unreadAfter use
  | _, g => g.unread

theorem requeueForMemberLocked_record (memberID : String) (clock : String → Time)
    (order : List String) (g : ConsumerGroup) :
    (g.requeueForMemberLocked memberID clock order).record = g.record := by
  refine foldl_same record _ fun g entry => ?_
  simp only
  split <;> rfl

theorem effect_record (op : Op) (g : ConsumerGroup) :
    (g.effect op).group.record = (g.name, g.sent, g.unreadBy op) := by
  cases op with
  | removeMember memberID clock order pass =>
    simp only [effect]
    split
    · rfl
    · exact requeueForMemberLocked_record memberID clock order _
  | ack id hook pass =>
    simp only [effect]
    split <;> rfl
  | nack id requeue maxRetries policy hook now pass =>
    simp only [effect]
    split
    · rfl
    · split <;> rfl
  | heartbeat memberID now =>
    simp only [effect, heartbeat]
    split <;> rfl
  | reapDeadMembers now clock order pass =>
    exact foldl_same record _ fun g m => requeueForMemberLocked_record m.id clock order g
  | requeueExpired sweep =>
    refine foldl_same record _ fun g entry => ?_
    unfold expire
    split <;> rfl
  | _ => rfl

theorem effect_sent (op : Op) (g : ConsumerGroup) : (g.effect op).group.sent = g.sent :=
  congrArg (fun record => record.2.1) (effect_record op g)

theorem effect_accepts (op : Op) (g : ConsumerGroup) :
    (acceptedIds (g.effect op).reports).length ≤ 1 := by
  cases op with
  | use use => exact (useEvents_ids use g).1 ▸ Nat.zero_le 1
  | _ =>
    refine (length_filterMap_le _ _).trans ?_
    simp only [effect]
    (repeat' split) <;> simp [Effect.none, settle]

structure Accounted (history : List Event) (g : ConsumerGroup) : Prop where
  distinct : (acceptedIds history).Nodup
  places : (acceptedIds history).Perm (g.ids ++ settledIds history)

theorem Accounted.step {events : List Event}
    (h : Accounted history g) (step : Step singleTakers history g events g') :
    Accounted (history ++ events) g' := by
  cases step with
  | call op hsingle happly hfresh =>
    have ⟨delivered, now, sends, hcall, run⟩ := apply_handsOver hsingle
    rw [hcall] at happly
    cases happly
    have heffect := effect_ids op g
    have hplaces : (acceptedIds history ++ acceptedIds (g.effect op).reports).Perm
        ((g.effect op).group.ids ++ (settledIds history ++ settledIds (g.effect op).reports)) := by
      refine (h.places.append_right _).trans (perm_append_comm.trans ?_)
      rw [← append_assoc]
      refine (heffect.append_right _).trans ?_
      rw [append_assoc]
      refine perm_append_comm.trans ?_
      rw [append_assoc]
    have hdistinct : (acceptedIds history ++ acceptedIds (g.effect op).reports).Nodup := by
      refine nodup_append.mpr ⟨h.distinct, ?_, ?_⟩
      · rw [nodup_iff_count_le_one]
        intro id
        exact count_le_length.trans (effect_accepts op g)
      · rintro id hold other hnew rfl
        have ⟨event, hmem, heq⟩ := mem_filterMap.mp hnew
        cases event with
        | accepted msg =>
          cases heq
          exact hfresh msg hmem hold
        | _ => cases heq
    have hids := run.ids (nodup_append.mp (hplaces.nodup_iff.mp hdistinct)).1
    constructor
    · simpa using hdistinct
    · have hfinal := hplaces.trans (hids.symm.append_right _)
      simpa using hfinal

theorem Runs.accounted {name queueName : String}
    (run : Runs singleTakers (new name queueName) history g) : Accounted history g :=
  run.invariant Accounted ⟨nodup_nil, List.Perm.refl _⟩ fun h step => h.step step

def places (history : List Event) (g : ConsumerGroup) (id : String) : Nat :=
  (g.messages.map fun msg => msg.id).count id + (g.inFlight.entries.map fun entry => entry.msg.id).count id +
    (settledIds history).count id

/-- In a run whose delivery passes have single takers, a further call of that kind
does not panic and its pass is a sequence of deliveries of the head to one member
each; and each accepted message is in exactly one place. -/
theorem group_delivers_once {name queueName : String} {history : List Event}
    (run : Runs singleTakers (new name queueName) history g) :
    (∀ op, singleTakers g op → ∃ g' now sends,
      g.apply op = .ok (g', (g.effect op).reports) ∧ newSends g g' = sends ∧
        HandsOver now (g.effect op).group sends g') ∧
      ∀ msg, .accepted msg ∈ history → places history g msg.id = 1 := by
  constructor
  · intro op hsingle
    have ⟨g', now, sends, hcall, handsOver⟩ := apply_handsOver hsingle
    refine ⟨g', now, sends, hcall, ?_, handsOver⟩
    rw [newSends, handsOver.sent, effect_sent, List.drop_left]
  · intro msg hmem
    have h := run.accounted
    have haccepted : msg.id ∈ acceptedIds history := List.mem_filterMap.mpr ⟨_, hmem, rfl⟩
    have hcount := h.places.count_eq msg.id
    rw [List.count_eq_one_of_mem h.distinct haccepted, ids, List.count_append,
      List.count_append] at hcount
    exact hcount.symm

def job (id : String) : Message where
  id := id
  queue := "orders"
  payload := [1]
  headers := ∅
  attempt := 0
  publishedAt := 0
  visibleAt := 0
  orderingKey := ""
  sequence := 0

def crew (members : List String) : Go ConsumerGroup :=
  members.foldlM (fun g memberID => do
    let (g, _) ← g.addMember memberID 30 0 ⟨0, []⟩
    return g) (new "workers" "orders")

theorem crew_runs {guard : ConsumerGroup → Op → Prop} {members : List String} {g : ConsumerGroup}
    (hguard : ∀ memberID g, g.messages = [] → guard g (.addMember memberID 30 0 ⟨0, []⟩))
    (h : crew members = .ok g) :
    Runs guard (new "workers" "orders") [] g := by
  have hfold (members : List String) (first : ConsumerGroup) (hidle : first.messages = [])
      (run : Runs guard (new "workers" "orders") [] first)
      (hrest : members.foldlM (fun g memberID => do
        let (g, _) ← g.addMember memberID 30 0 ⟨0, []⟩
        return g) first = .ok g) : Runs guard (new "workers" "orders") [] g := by
    induction members generalizing first with
    | nil =>
      cases hrest
      exact run
    | cons memberID members ih =>
      have hadd : first.addMember memberID 30 0 ⟨0, []⟩ =
          .ok ((first.effect (.addMember memberID 30 0 ⟨0, []⟩)).group, first.made) := by
        simp [addMember, tryDeliver, hidle, effect]
      rw [foldlM_cons, hadd] at hrest
      refine ih (first.effect (.addMember memberID 30 0 ⟨0, []⟩)).group hidle ?_ hrest
      have happly : first.apply (.addMember memberID 30 0 ⟨0, []⟩) =
          .ok ((first.effect (.addMember memberID 30 0 ⟨0, []⟩)).group, []) := by
        rw [apply, hadd]
        rfl
      have hnext := run.next (.call _ (hguard memberID first hidle) happly (by simp))
      simpa [newSends, effect_sent] using hnext
  exact hfold members _ rfl .start h

theorem group_delivers_once_two_members :
    ∃ history g, Runs singleTakers (new "workers" "orders") history g ∧
      .accepted (job "a") ∈ history ∧ places history g "a" = 1 := by
  have hidle (memberID : String) (g : ConsumerGroup) (hidle : g.messages = []) :
      singleTakers g (.addMember memberID 30 0 ⟨0, []⟩) := by
    intro pass hpass
    cases hpass
    simp [effect, hidle, singleTaker]
  have hcrew : ∃ g, crew ["x", "y"] = .ok g ∧ singleTakers g (.enqueue (job "a") ⟨0, []⟩) :=
    ⟨_, rfl, by intro pass hpass; cases hpass; decide⟩
  obtain ⟨g, hcrew, hsingle⟩ := hcrew
  obtain ⟨g', _, _, hcall, _⟩ := apply_handsOver hsingle
  have run : Runs singleTakers (new "workers" "orders") _ g' :=
    (crew_runs hidle hcrew).next (.call _ hsingle hcall (by simp [acceptedIds]))
  have hmem : Event.accepted (job "a") ∈ [] ++ ((g.effect (.enqueue (job "a") ⟨0, []⟩)).reports ++
      (newSends g g').map .sent) := by simp [effect]
  exact ⟨_, g', run, hmem, (group_delivers_once run).2 _ hmem⟩

/-- With three idle members the loop cuts the pending list a second time after it
has handed out its only message. -/
theorem enqueue_panics_three_members :
    ∃ history g, Runs anyCall (new "workers" "orders") history g ∧
      g.apply (.enqueue (job "a") ⟨0, []⟩) = .error .sliceBounds := by
  have hcrew : ∃ g, crew ["x", "y", "z"] = .ok g ∧
      g.apply (.enqueue (job "a") ⟨0, []⟩) = .error .sliceBounds := ⟨_, rfl, by decide⟩
  have ⟨g, hcrew, hpanic⟩ := hcrew
  exact ⟨[], g, crew_runs (fun _ _ _ => trivial) hcrew, hpanic⟩

end QwerQ.ConsumerGroup
