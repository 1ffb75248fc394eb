import QwerQ.Group.Ledger

/-! What a group can hand out. Deliveries, requeues and settlements move messages
about and never make one up, so all that a group holds and sends has the body of a
copy that was enqueued on it. What is read later has it too, unless the caller of a
nack has written to the object in between. -/
namespace QwerQ.ConsumerGroup
open List
variable {g g' : ConsumerGroup} {copies : Body → Prop} {send : GroupSend}

structure Holds (copies : Body → Prop) (g : ConsumerGroup) : Prop where
  pending : ∀ msg ∈ g.messages, copies msg.body
  inFlight : ∀ entry ∈ g.inFlight.entries, copies entry.msg.body

theorem Holds.mono {more : Body → Prop} (h : g.Holds copies)
    (hmore : ∀ body, copies body → more body) : g.Holds more :=
  ⟨fun msg hmem => hmore _ (h.pending msg hmem), fun entry hmem => hmore _ (h.inFlight entry hmem)⟩

theorem Holds.push {msg : GroupMessage} {cloned : Nat} (h : g.Holds copies)
    (hmsg : copies msg.body) :
    Holds copies { g with messages := g.messages ++ [msg], cloned := cloned } := by
  refine ⟨fun other hother => ?_, h.inFlight⟩
  rcases mem_append.mp hother with hold | hnew
  · exact h.pending other hold
  · rw [mem_singleton.mp hnew]
    exact hmsg

theorem Holds.erase (id : String) (h : g.Holds copies) :
    Holds copies { g with inFlight := g.inFlight.erase id } := by
  refine ⟨h.pending, fun entry hentry => ?_⟩
  rw [KeyedMap.entries_erase] at hentry
  exact h.inFlight entry (mem_of_mem_filter hentry)

theorem Holds.requeue {entry : InFlightEntry} (time : Time) (h : g.Holds copies)
    (hentry : copies entry.msg.body) :
    Holds copies { g with
      inFlight := g.inFlight.erase entry.msg.id
      messages := g.messages ++ [{ entry.msg with visibleAt := time }] } :=
  (h.erase entry.msg.id).push hentry

/-- The sends of a pass have such bodies, and nobody has read them yet. -/
structure Sends (copies : Body → Prop) (g g' : ConsumerGroup) : Prop where
  holds : g'.Holds copies
  record : ∃ sends, g'.record = (g.name, g.sent ++ sends, g.unread ++ sends) ∧
    ∀ send ∈ sends, copies send.msg.body

theorem Holds.sends (h : g.Holds copies) : Sends copies g g :=
  ⟨h, [], by rw [append_nil, append_nil]; rfl, fun _ hmem => absurd hmem not_mem_nil⟩

theorem Sends.accept {now : Time} {idx : Nat} {m : GroupMember} {s s' : Scan}
    (h : Sends copies g s.group) (hmsg : copies s.msg.body)
    (haccept : ConsumerGroup.accept now idx m s = .ok s') :
    Sends copies g s'.group ∧ copies s'.msg.body := by
  obtain ⟨_, _, hcut, rfl⟩ := accept_ok haccept
  obtain ⟨sends, hrecord, hsends⟩ := h.record
  obtain ⟨hname, hsent, hunread⟩ := Prod.mk.inj hrecord |>.imp_right Prod.mk.inj
  refine ⟨⟨⟨fun msg hmem => ?_, fun entry hentry => ?_⟩, sends ++ [⟨m.ch, m.id, s.msg⟩], ?_,
    fun send hsend => ?_⟩, hmsg⟩
  · exact h.holds.pending msg (hcut ▸ mem_cons_of_mem _ hmem)
  · rcases KeyedMap.mem_entries_insert.mp hentry with ⟨hold, _⟩ | rfl
    · exact h.holds.inFlight entry hold
    · exact hmsg
  · simp only [ConsumerGroup.record, Scan.take, handOver, hname, hsent, hunread, append_assoc]
  · rcases mem_append.mp hsend with hold | hnew
    · exact hsends send hold
    · rw [mem_singleton.mp hnew]
      exact hmsg

theorem tryDeliver_sendsOf {pass : Pass} (h : g.Holds copies) (hpass : g.tryDeliver pass = .ok g') :
    Sends copies g g' :=
  @tryDeliver_invariant g (Sends copies g) (fun msg => copies msg.body)
    (fun hsends hhead => hsends.holds.pending _ (hhead ▸ mem_cons_self))
    (fun hsends hmsg _ htaken => hsends.accept hmsg htaken) pass g' h.sends hpass

theorem requeueForMemberLocked_holds (memberID : String) (clock : String → Time)
    (order : List String) (h : g.Holds copies) :
    (g.requeueForMemberLocked memberID clock order).Holds copies := by
  -- The entries visited are those of the map before the loop.
  refine List.foldlRecOn (motive := Holds copies) _ _ h ?_
  intro current hcurrent entry hentry
  split
  · exact hcurrent.requeue _ (h.inFlight entry (KeyedMap.mem_inOrder.mp hentry))
  · exact hcurrent

theorem expire_holds (sweep : Sweep) (h : g.Holds copies) :
    ((g.inFlight.inOrder sweep.order).foldl (expire sweep.now) g).Holds copies := by
  refine List.foldlRecOn (motive := Holds copies) _ _ h ?_
  intro current hcurrent entry hentry
  unfold expire
  split
  · exact hcurrent.requeue _ (h.inFlight entry (KeyedMap.mem_inOrder.mp hentry))
  · exact hcurrent

variable {op : Op} {reports : List Event}

theorem effect_holds (hop : ∀ msg pass, op = .enqueue msg pass → copies (clone msg).body)
    (h : g.Holds copies) : (g.effect op).group.Holds copies := by
  cases op with
  | enqueue msg pass => exact h.push (hop msg pass rfl)
  | addMember | receive | use => exact ⟨h.pending, h.inFlight⟩
  | removeMember memberID clock order pass =>
    simp only [effect]
    split
    · exact h
    · exact requeueForMemberLocked_holds memberID clock order ⟨h.pending, h.inFlight⟩
  | ack id hook pass =>
    simp only [effect]
    split
    · exact h.erase id
    · exact h
  | nack id requeue maxRetries policy hook now pass =>
    simp only [effect]
    split
    · exact h
    · rename_i entry hfind
      obtain ⟨hmem, hid⟩ := KeyedMap.find?_eq_some_iff.mp hfind
      split
      · exact ⟨h.pending, (h.erase id).inFlight⟩
      · exact h.erase id
      · exact h
      · exact (h.erase id).push (h.inFlight entry hmem)
  | heartbeat memberID now =>
    simp only [effect, heartbeat]
    split <;> exact ⟨h.pending, h.inFlight⟩
  | reapDeadMembers now clock order pass =>
    have hreaped := List.foldlRecOn (motive := Holds copies) (g.members.filter (g.isDead now))
      (fun g m => g.requeueForMemberLocked m.id clock order) h
      fun _ hcurrent m _ => requeueForMemberLocked_holds m.id clock order hcurrent
    exact ⟨hreaped.pending, hreaped.inFlight⟩
  | requeueExpired sweep => exact expire_holds sweep h

theorem apply_holds (hop : ∀ msg pass, op = .enqueue msg pass → copies (clone msg).body)
    (h : g.Holds copies) (happly : g.apply op = .ok (g', reports)) : g'.Holds copies ∧
      g'.record = (g.name, g.sent ++ newSends g g', g.unreadBy op ++ newSends g g') ∧
      ∀ send ∈ newSends g g', copies send.msg.body := by
  have hsends : Sends copies (g.effect op).group g' := by
    have heffect := effect_holds hop h
    obtain ⟨_, rfl | ⟨pass, hpass⟩⟩ := apply_ok happly
    · exact heffect.sends
    · exact tryDeliver_sendsOf heffect hpass
  obtain ⟨sends, hrecord, hcopies⟩ := hsends.record
  obtain ⟨hname, hsent, hunread⟩ := Prod.mk.inj (effect_record op g) |>.imp_right Prod.mk.inj
  rw [hname, hsent, hunread] at hrecord
  have hnew : newSends g g' = sends := by
    rw [newSends, (Prod.mk.inj (Prod.mk.inj hrecord).2).1, drop_left]
  rw [hnew]
  exact ⟨hsends.holds, hrecord, hcopies⟩

theorem apply_name (h : g.apply op = .ok (g', reports)) : g'.name = g.name := by
  have hany : g.Holds fun _ => True := ⟨fun _ _ => trivial, fun _ _ => trivial⟩
  exact congrArg Prod.fst (apply_holds (fun _ _ _ => trivial) hany h).2.1

/-- Each unread object has such a body, and has it after the call as well: nobody writes to
it, or the bodies may have any queue. -/
theorem unreadBy_copies (h : ∀ send ∈ g.unread, copies send.msg.body)
    (hassign : (∀ unread, .assigned unread ∈ (g.effect op).reports → unread = []) ∨
      ∀ body queue, copies body → copies { body with queue := queue }) :
    ∀ send ∈ g.unreadBy op, copies send.msg.body := by
  intro send hsend
  cases op with
  | use use =>
    cases use with
    | read ch => exact h send (mem_of_mem_eraseP hsend)
    | abandon ch => exact h send (mem_of_mem_filter hsend)
    | assign object queue =>
      simp only [unreadBy, unreadAfter] at hsend
      split at hsend
      · rename_i hrejected
        obtain ⟨before, hbefore, rfl⟩ := mem_map.mp hsend
        unfold assign
        split
        · rename_i hobject
          rcases hassign with hnone | hany
          · have hempty : g.unread.filter (fun send => send.msg.object = object) = [] :=
              hnone _ (by simp only [effect, useEvents, if_pos hrejected, mem_singleton])
            exact absurd (mem_filter.mpr ⟨hbefore, decide_eq_true hobject⟩) (hempty ▸ not_mem_nil)
          · exact hany _ queue (h before hbefore)
        · exact h before hbefore
      · exact h send hsend
  | _ => exact h send hsend

theorem mem_unread_of_read (h : .read send ∈ (g.effect op).reports) : send ∈ g.unread := by
  cases op with
  | use use =>
    cases use with
    | read ch =>
      obtain ⟨_, hfind, hsend⟩ := Option.map_eq_some_iff.mp (Option.mem_toList.mp h)
      cases hsend
      exact mem_of_find?_eq_some hfind
    | abandon ch => exact absurd h not_mem_nil
    | assign object queue =>
      simp only [effect, useEvents] at h
      split at h <;> simp at h
  | _ =>
    simp only [effect] at h
    (repeat' split at h) <;> simp [Effect.none, settle] at h

theorem clone_body (msg : Message) : (clone msg).body = { msg.body with orderingKey := "" } := rfl

end QwerQ.ConsumerGroup
