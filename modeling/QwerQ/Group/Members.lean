import QwerQ.Group.Ledger
import QwerQ.Queue.Registry

/-! The members of a group and their channels. A member's channel is made when the member
joins and closed when it is removed or reaped. At every moment the list holds the members
whose channels are open, deliveries go to members of the list only, and what is in flight
is with one of them. -/
namespace QwerQ.ConsumerGroup
open List
variable {g g' : ConsumerGroup}

/-- The loop of `ReapDeadMembers`. The slice of the survivors shares the array that the loop
reads, and `kept` is its length; `closed` are the channels closed so far. -/
structure Reaping where
  array : List GroupMember
  kept : Nat
  closed : List Nat
  dead : List String
  group : ConsumerGroup

def reapRound (now : Time) (clock : String → Time) (order : List String) (s : Reaping) (i : Nat) :
    Go Reaping :=
  match s.array[i]? with
  | none => .error .indexOutOfRange
  | some m =>
      if s.group.isDead now m then
        .ok { s with
          closed := s.closed ++ [m.ch]
          dead := s.dead ++ [m.id]
          group := s.group.requeueForMemberLocked m.id clock order }
      else .ok { s with array := s.array.set s.kept m, kept := s.kept + 1 }

def reapInPlace (now : Time) (clock : String → Time) (order : List String) (g : ConsumerGroup) :
    Go Reaping :=
  (List.range g.members.length).foldlM (reapRound now clock order) ⟨g.members, 0, [], [], g⟩

variable {m : GroupMember} {idx : Nat} {now : Time} {clock : String → Time} {order : List String}
  {entry : InFlightEntry} {op : Op}

section InPlace

theorem requeueForMemberLocked_isDead (memberID : String) (g : ConsumerGroup) :
    (g.requeueForMemberLocked memberID clock order).isDead now = g.isDead now := by
  have hsame : (g.requeueForMemberLocked memberID clock order).heartbeatTimeout =
      g.heartbeatTimeout :=
    List.foldlRecOn (motive := fun g' : ConsumerGroup => g'.heartbeatTimeout = g.heartbeatTimeout)
      _ _ rfl fun g' h entry _ => by split <;> exact h
  funext m
  rw [isDead, isDead, hsame]

theorem set_kept (alive stale rest : List GroupMember) (m : GroupMember) :
    ∃ stale', (alive ++ stale ++ m :: rest).set alive.length m = (alive ++ [m]) ++ stale' ++ rest ∧
      stale'.length = stale.length := by
  cases stale with
  | nil => exact ⟨[], by simp, rfl⟩
  | cons first later =>
    refine ⟨later ++ [m], ?_, by simp⟩
    simp [append_assoc]

/-- The rounds to come. The array holds the survivors, then slots that have been read, then
the members still to be read: no slot is written before it is read. -/
theorem reapRounds_inPlace (rest alive stale : List GroupMember) (closed : List Nat)
    (dead : List String) (g : ConsumerGroup) : ∃ array : List GroupMember,
    (List.range' (alive ++ stale).length rest.length).foldlM (reapRound now clock order)
      ⟨alive ++ stale ++ rest, alive.length, closed, dead, g⟩ = .ok
      ⟨array, (alive ++ rest.filter fun m => !g.isDead now m).length,
        closed ++ (rest.filter (g.isDead now)).map GroupMember.ch,
        dead ++ (rest.filter (g.isDead now)).map GroupMember.id,
        (rest.filter (g.isDead now)).foldl
          (fun g m => g.requeueForMemberLocked m.id clock order) g⟩ ∧
      array.take (alive ++ rest.filter fun m => !g.isDead now m).length =
        alive ++ rest.filter fun m => !g.isDead now m := by
  induction rest generalizing alive stale closed dead g with
  | nil =>
    refine ⟨alive ++ stale, ?_, ?_⟩
    · simp
    · simp
  | cons m rest ih =>
    have hread : (alive ++ stale ++ m :: rest)[(alive ++ stale).length]? = some m := by
      rw [getElem?_append_right (Nat.le_refl _), Nat.sub_self]
      rfl
    rw [length_cons, range'_succ, foldlM_cons, reapRound]
    simp only [hread]
    by_cases hm : g.isDead now m = true
    · have ⟨array, hrounds, hfront⟩ := ih alive (stale ++ [m]) (closed ++ [m.ch]) (dead ++ [m.id])
        (g.requeueForMemberLocked m.id clock order)
      have hgone : ((m :: rest).filter fun m => !g.isDead now m) =
          rest.filter fun m => !g.isDead now m := filter_cons_of_neg (by simp [hm])
      rw [requeueForMemberLocked_isDead] at hrounds hfront
      rw [hgone, filter_cons_of_pos hm]
      refine ⟨array, ?_, hfront⟩
      simp only [hm, if_true]
      simpa [append_assoc, Nat.add_assoc] using hrounds
    · have hm : g.isDead now m = false := Bool.eq_false_iff.mpr hm
      have ⟨stale', hset, hlength⟩ := set_kept alive stale rest m
      have ⟨array, hrounds, hfront⟩ := ih (alive ++ [m]) stale' closed dead g
      refine ⟨array, ?_, ?_⟩
      · simp only [hm, hset]
        simpa [append_assoc, hlength, hm, Nat.add_assoc, Nat.add_comm, Nat.add_left_comm]
          using hrounds
      · simpa [hm] using hfront

/-- Filtering the members in place comes to the same as filtering them into a new slice. -/
theorem reapDeadMembers_inPlace (now : Time) (clock : String → Time) (order : List String)
    (pass : Pass) (g : ConsumerGroup) : ∃ s, g.reapInPlace now clock order = .ok s ∧
      s.closed = (g.members.filter (g.isDead now)).map GroupMember.ch ∧
      g.reapDeadMembers now clock order pass = (do
        let g ← (s.group.setMembers (s.array.take s.kept)).tryDeliver pass
        return (g, s.dead)) := by
  have ⟨array, hrounds, hfront⟩ := @reapRounds_inPlace now clock order g.members [] [] [] [] g
  simp only [nil_append, length_nil, ← range_eq_range'] at hrounds hfront
  refine ⟨_, hrounds, rfl, ?_⟩
  rw [hfront, reapDeadMembers]

end InPlace

def channels (g : ConsumerGroup) : List Nat := g.roster.map Prod.snd

def Named (g : ConsumerGroup) : Prop :=
  ∀ entry ∈ g.inFlight.entries, entry.memberID ∈ g.roster.map Prod.fst

/-- What a pass does: it sends to members of the list only, and what it puts in flight is
with them. -/
structure Serves (g g' : ConsumerGroup) : Prop where
  same : SameRoster g g'
  inFlight : ∀ entry ∈ g'.inFlight.entries,
    entry ∈ g.inFlight.entries ∨ entry.memberID ∈ g.roster.map Prod.fst
  sent : ∃ sends, g'.sent = g.sent ++ sends ∧ ∀ send ∈ sends, send.ch ∈ g.channels

theorem serves_refl (g : ConsumerGroup) : Serves g g :=
  ⟨sameRoster_refl g, fun _ h => .inl h, [], (append_nil _).symm, nofun⟩

theorem mem_roster (h : g.members[idx]? = some m) :
    (m.id, m.ch) ∈ g.roster := mem_map.mpr ⟨m, mem_of_getElem? h, rfl⟩

theorem Serves.accept {s s' : Scan}
    (h : Serves g s.group) (hm : s.group.members[idx]? = some m)
    (htaken : ConsumerGroup.accept now idx m s = .ok s') : Serves g s'.group := by
  have hsame := h.same.trans (accept_sameRoster hm htaken)
  have hroster : (m.id, m.ch) ∈ g.roster := h.same.roster ▸ mem_roster hm
  obtain ⟨_, _, _, rfl⟩ := accept_ok htaken
  obtain ⟨sends, hsent, hsends⟩ := h.sent
  refine ⟨hsame, fun entry hentry => ?_, sends ++ [⟨m.ch, m.id, s.msg⟩], ?_, fun send hsend => ?_⟩
  · rcases KeyedMap.mem_entries_insert.mp hentry with ⟨hold, _⟩ | rfl
    · exact h.inFlight entry hold
    · exact .inr (mem_map.mpr ⟨_, hroster, rfl⟩)
  · simp only [Scan.take, handOver, hsent, append_assoc]
  · rcases mem_append.mp hsend with hold | hnew
    · exact hsends send hold
    · rw [mem_singleton.mp hnew]
      exact mem_map.mpr ⟨_, hroster, rfl⟩

theorem tryDeliver_serves {pass : Pass} (h : g.tryDeliver pass = .ok g') : Serves g g' :=
  tryDeliver_invariant (fun _ _ => trivial)
    (fun hserves _ hm htaken => ⟨hserves.accept hm htaken, trivial⟩) (serves_refl g) h

theorem Serves.named (h : Serves g g') (hnamed : g.Named) : g'.Named := by
  intro entry hentry
  rw [h.same.roster]
  rcases h.inFlight entry hentry with hold | hnew
  · exact hnamed entry hold
  · exact hnew

def Op.opens (g : ConsumerGroup) : Op → List Nat
  | .addMember .. => [g.made]
  | _ => []

/-- The channels that the call closes: that of the first member of the id, and those of all
dead members. -/
def Op.closes (g : ConsumerGroup) : Op → List Nat
  | .removeMember memberID .. => ((g.members.find? fun m => m.id = memberID).map GroupMember.ch).toList
  | .reapDeadMembers now .. => (g.members.filter (g.isDead now)).map GroupMember.ch
  | _ => []

theorem channels_eq (g : ConsumerGroup) : g.channels = g.members.map GroupMember.ch := by
  rw [channels, roster, map_map]
  rfl

theorem memberIDs_eq (g : ConsumerGroup) : g.roster.map Prod.fst = g.members.map GroupMember.id := by
  rw [roster, map_map]
  rfl

theorem mem_requeueForMemberLocked {memberID : String}
    (h : entry ∈ (g.requeueForMemberLocked memberID clock order).inFlight.entries) :
    entry ∈ g.inFlight.entries ∧ entry.memberID ≠ memberID := by
  have hvisits (visited : List InFlightEntry) (g : ConsumerGroup)
      (h : entry ∈ (visited.foldl (fun g entry => if entry.memberID = memberID then
        g.putBack clock entry else g) g).inFlight.entries) :
      entry ∈ g.inFlight.entries ∧ (entry ∈ visited → entry.memberID ≠ memberID) := by
    induction visited generalizing g with
    | nil => exact ⟨h, nofun⟩
    | cons first visited ih =>
      rw [foldl_cons] at h
      have ⟨hmem, hlater⟩ := ih _ h
      split at hmem
      · simp only [putBack, KeyedMap.entries_erase, mem_filter, decide_eq_true_eq] at hmem
        refine ⟨hmem.1, fun hvisited => ?_⟩
        rcases mem_cons.mp hvisited with rfl | hrest
        · exact absurd rfl hmem.2
        · exact hlater hrest
      · rename_i hother
        refine ⟨hmem, fun hvisited => ?_⟩
        rcases mem_cons.mp hvisited with rfl | hrest
        · exact hother
        · exact hlater hrest
  have ⟨hmem, hvisited⟩ := hvisits _ g h
  exact ⟨hmem, hvisited (KeyedMap.mem_inOrder.mpr hmem)⟩

theorem foldl_requeueForMemberLocked_sameRoster (dead : List GroupMember) (clock : String → Time)
    (order : List String) (g : ConsumerGroup) :
    SameRoster g (dead.foldl (fun g m => g.requeueForMemberLocked m.id clock order) g) := by
  induction dead generalizing g with
  | nil => exact sameRoster_refl g
  | cons m dead ih => exact (requeueForMemberLocked_sameRoster m.id clock order g).trans (ih _)

theorem mem_foldl_requeueForMemberLocked {dead : List GroupMember}
    (h : entry ∈ (dead.foldl (fun g m => g.requeueForMemberLocked m.id clock order) g).inFlight.entries) :
    entry ∈ g.inFlight.entries ∧ ∀ m ∈ dead, entry.memberID ≠ m.id := by
  induction dead generalizing g with
  | nil => exact ⟨h, nofun⟩
  | cons m dead ih =>
    have ⟨hmem, hlater⟩ := ih h
    have ⟨hmem, hm⟩ := mem_requeueForMemberLocked hmem
    exact ⟨hmem, forall_mem_cons.mpr ⟨hm, hlater⟩⟩

theorem mem_foldl_expire {visited : List InFlightEntry}
    (h : entry ∈ (visited.foldl (expire now) g).inFlight.entries) : entry ∈ g.inFlight.entries := by
  induction visited generalizing g with
  | nil => exact h
  | cons first visited ih =>
    have hmem := ih h
    unfold expire at hmem
    split at hmem
    · rw [KeyedMap.entries_erase] at hmem
      exact mem_of_mem_filter hmem
    · exact hmem

theorem foldl_expire_sameRoster (now : Time) (visited : List InFlightEntry) (g : ConsumerGroup) :
    SameRoster g (visited.foldl (expire now) g) := by
  induction visited generalizing g with
  | nil => exact sameRoster_refl g
  | cons first visited ih =>
    refine SameRoster.trans ?_ (ih (expire now g first))
    unfold expire
    split <;> exact ⟨rfl, rfl, rfl⟩

/-- A change that touches neither the list of members nor adds anything in flight. -/
structure Quieter (g g' : ConsumerGroup) : Prop where
  same : SameRoster g g'
  inFlight : ∀ entry ∈ g'.inFlight.entries, entry ∈ g.inFlight.entries

theorem Quieter.named (h : Quieter g g') (hnamed : g.Named) : g'.Named :=
  fun entry hentry => h.same.roster ▸ hnamed entry (h.inFlight entry hentry)

theorem quieter_erase (id : String) (messages : List GroupMessage) (g : ConsumerGroup) :
    Quieter g { g with inFlight := g.inFlight.erase id, messages := messages } := by
  refine ⟨⟨rfl, rfl, rfl⟩, fun entry hentry => ?_⟩
  rw [KeyedMap.entries_erase] at hentry
  exact mem_of_mem_filter hentry

theorem roster_modify (i : Nat) (change : GroupMember → GroupMember) (g : ConsumerGroup)
    (h : ∀ m, (change m).id = m.id ∧ (change m).ch = m.ch) :
    (g.members.modify i change).map (fun m => (m.id, m.ch)) = g.roster := by
  refine ext_getElem (by simp [roster]) fun n hn _ => ?_
  simp only [roster, getElem_map, getElem_modify]
  split
  · rw [(h _).1, (h _).2]
  · rfl

def Op.keepsMembers : Op → Bool
  | .addMember .. | .removeMember .. | .reapDeadMembers .. => false
  | _ => true

theorem effect_quieter (hop : op.keepsMembers = true) : Quieter g (g.effect op).group := by
  have hsame : Quieter g g := ⟨sameRoster_refl g, fun _ h => h⟩
  cases op with
  | enqueue | use => exact ⟨⟨rfl, rfl, rfl⟩, fun _ h => h⟩
  | addMember | removeMember | reapDeadMembers => exact absurd hop Bool.false_ne_true
  | receive ch =>
    refine ⟨⟨rfl, rfl, ?_⟩, fun _ h => h⟩
    simp only [effect, Effect.none, receive, roster, map_map]
    refine map_congr_left fun m _ => ?_
    simp only [Function.comp_apply]
    split <;> rfl
  | ack id hook pass =>
    simp only [effect]
    split
    · exact quieter_erase id g.messages g
    · exact hsame
  | nack id requeue maxRetries policy hook now pass =>
    simp only [effect]
    split
    · exact hsame
    · split
      · exact ⟨⟨rfl, rfl, rfl⟩, (quieter_erase id g.messages g).inFlight⟩
      · exact quieter_erase id g.messages g
      · exact hsame
      · exact quieter_erase id _ g
  | heartbeat memberID now =>
    simp only [effect, Effect.none, heartbeat]
    split
    · exact hsame
    · exact ⟨⟨rfl, rfl, roster_modify _ _ g fun m => ⟨rfl, rfl⟩⟩, fun _ h => h⟩
  | requeueExpired sweep =>
    exact ⟨foldl_expire_sameRoster sweep.now _ g, fun _ h => mem_foldl_expire h⟩

theorem effect_removeMember (memberID : String) (clock : String → Time) (order : List String)
    (pass : Pass) (g : ConsumerGroup) :
    ∃ left : ConsumerGroup, SameRoster left (g.effect (.removeMember memberID clock order pass)).group ∧
      left.members = g.members.eraseP (fun m => m.id = memberID) ∧ left.made = g.made ∧
      ∀ entry ∈ (g.effect (.removeMember memberID clock order pass)).group.inFlight.entries,
        entry ∈ g.inFlight.entries ∧
          (entry.memberID ∈ g.members.map GroupMember.id → entry.memberID ≠ memberID) := by
  simp only [effect]
  split
  · rename_i hnone
    have hmembers : ∀ m ∈ g.members, ¬m.id = memberID := by
      simpa using findIdx?_eq_none_iff.mp hnone
    refine ⟨g, sameRoster_refl g, ?_, rfl, fun entry hentry => ⟨hentry, ?_⟩⟩
    · exact (eraseP_of_forall_not (by simpa using hmembers)).symm
    · rintro hmem rfl
      obtain ⟨m, hm, hid⟩ := mem_map.mp hmem
      exact hmembers m hm hid
  · rename_i i hi
    refine ⟨g.setMembers (g.members.eraseIdx i), requeueForMemberLocked_sameRoster memberID clock order _,
      ?_, rfl, fun entry hentry => ?_⟩
    · rw [eraseP_eq_eraseIdx, hi]
      rfl
    · obtain ⟨hmem, hother⟩ := mem_requeueForMemberLocked hentry
      exact ⟨hmem, fun _ => hother⟩

theorem eraseP_perm (members : List GroupMember) (p : GroupMember → Bool) :
    ((members.eraseP p).map GroupMember.ch ++ ((members.find? p).map GroupMember.ch).toList).Perm
      (members.map GroupMember.ch) := by
  induction members with
  | nil => exact List.Perm.refl _
  | cons m members ih =>
    by_cases hm : p m = true
    · rw [eraseP_cons_of_pos hm, find?_cons_of_pos hm]
      exact perm_append_singleton _ _
    · rw [eraseP_cons_of_neg hm, find?_cons_of_neg hm]
      exact ih.cons _

theorem effect_channels (op : Op) (g : ConsumerGroup) :
    ((g.effect op).group.channels ++ op.closes g).Perm (g.channels ++ op.opens g) ∧
      (g.effect op).group.made = g.made + (op.opens g).length := by
  have hquiet {op : Op} (hopens : op.opens g = []) (hcloses : op.closes g = [])
      (h : Quieter g (g.effect op).group) :
      ((g.effect op).group.channels ++ op.closes g).Perm (g.channels ++ op.opens g) ∧
        (g.effect op).group.made = g.made + (op.opens g).length := by
    rw [hopens, hcloses, channels, h.same.roster]
    exact ⟨List.Perm.refl _, h.same.made⟩
  cases op with
  | addMember memberID visTimeout now pass =>
    refine ⟨?_, rfl⟩
    simp [channels, roster, effect, Op.opens, Op.closes]
  | removeMember memberID clock order pass =>
    obtain ⟨left, hsame, hmembers, hmade, _⟩ := effect_removeMember memberID clock order pass g
    have hopens : Op.opens g (.removeMember memberID clock order pass) = [] := rfl
    refine ⟨?_, hsame.made.trans hmade⟩
    rw [channels, hsame.roster, ← channels, channels_eq, channels_eq, hmembers, hopens,
      append_nil]
    exact eraseP_perm g.members _
  | reapDeadMembers now clock order pass =>
    have hsame := foldl_requeueForMemberLocked_sameRoster (g.members.filter (g.isDead now)) clock order g
    have hopens : Op.opens g (.reapDeadMembers now clock order pass) = [] := rfl
    refine ⟨?_, hsame.made⟩
    rw [channels_eq, channels_eq, hopens, append_nil, Op.closes]
    change ((g.members.filter fun m => !g.isDead now m).map GroupMember.ch ++ _).Perm _
    rw [← map_append]
    exact (perm_append_comm.trans (filter_append_perm _ _)).map _
  | _ => exact hquiet rfl rfl (effect_quieter rfl)

theorem effect_named (op : Op) (h : g.Named) : (g.effect op).group.Named := by
  cases op with
  | addMember memberID visTimeout now pass =>
    intro entry hentry
    have hmem := h entry hentry
    rw [memberIDs_eq] at hmem ⊢
    simp only [effect, map_append]
    exact mem_append_left _ hmem
  | removeMember memberID clock order pass =>
    obtain ⟨left, hsame, hmembers, _, hinFlight⟩ := effect_removeMember memberID clock order pass g
    intro entry hentry
    obtain ⟨hold, hother⟩ := hinFlight entry hentry
    have hmem := h entry hold
    rw [memberIDs_eq] at hmem
    obtain ⟨m, hm, hid⟩ := mem_map.mp hmem
    rw [hsame.roster, memberIDs_eq, hmembers]
    refine mem_map.mpr ⟨m, ?_, hid⟩
    rw [mem_eraseP_of_neg (by simpa [hid] using hother hmem)]
    exact hm
  | reapDeadMembers now clock order pass =>
    intro entry hentry
    obtain ⟨hold, hdead⟩ := mem_foldl_requeueForMemberLocked hentry
    have hmem := h entry hold
    rw [memberIDs_eq] at hmem ⊢
    obtain ⟨m, hm, hid⟩ := mem_map.mp hmem
    refine mem_map.mpr ⟨m, mem_filter.mpr ⟨hm, ?_⟩, hid⟩
    by_contra hgone
    have hm' : m ∈ g.members.filter (g.isDead now) :=
      mem_filter.mpr ⟨hm, by simpa using hgone⟩
    exact hdead m hm' hid.symm
  | _ => exact (effect_quieter rfl).named h

inductive ChannelEvent where
  | opened (ch : Nat)
  | closed (ch : Nat)
  | sent (ch : Nat)
  deriving DecidableEq

/-- A call that returns. Channels are made and closed before the delivery pass sends. -/
inductive ChannelStep :
    List ChannelEvent → ConsumerGroup → List ChannelEvent → ConsumerGroup → Prop where
  | call {history : List ChannelEvent} {g g' : ConsumerGroup} {reports : List Event} (op : Op) :
      g.apply op = .ok (g', reports) →
      ChannelStep history g ((op.opens g).map .opened ++ (op.closes g).map .closed ++
        (newSends g g').map fun send => .sent send.ch) g'

abbrev ChannelRuns := Run ChannelStep

theorem apply_serves {reports : List Event} (h : g.apply op = .ok (g', reports)) :
    Serves (g.effect op).group g' := by
  obtain ⟨_, rfl | ⟨pass, hpass⟩⟩ := apply_ok h
  · exact serves_refl _
  · exact tryDeliver_serves hpass

def Proper (before : List ChannelEvent) : ChannelEvent → Prop
  | .opened ch => .opened ch ∉ before
  | .closed ch => .opened ch ∈ before ∧ .closed ch ∉ before
  | .sent ch => .opened ch ∈ before ∧ .closed ch ∉ before

structure Members (history : List ChannelEvent) (g : ConsumerGroup) : Prop where
  named : g.Named
  distinct : g.channels.Nodup
  listed : ∀ ch, ch ∈ g.channels ↔ .opened ch ∈ history ∧ .closed ch ∉ history
  numbered : ∀ ch, .opened ch ∈ history → ch < g.made
  opened : ∀ ch, .closed ch ∈ history → .opened ch ∈ history
  proper : AtEach Proper history

section Histories
variable {history : List ChannelEvent}

theorem proper_closes {closes : List Nat} (h : AtEach Proper history) (hdistinct : closes.Nodup)
    (hopen : ∀ ch ∈ closes, .opened ch ∈ history ∧ .closed ch ∉ history) :
    AtEach Proper (history ++ closes.map .closed) := by
  induction closes using List.reverseRecOn with
  | nil => simpa using h
  | append_singleton closes ch ih =>
    rw [nodup_append] at hdistinct
    have hearlier := ih hdistinct.1 fun other hother => hopen other (mem_append_left _ hother)
    have hch := hopen ch (mem_append_right _ (mem_singleton_self ch))
    rw [map_append, ← append_assoc]
    refine hearlier.snoc ⟨mem_append_left _ hch.1, ?_⟩
    rw [mem_append, not_or]
    refine ⟨hch.2, fun hmem => ?_⟩
    have hmem : ch ∈ closes := by simpa using hmem
    exact hdistinct.2.2 ch hmem ch (mem_singleton_self ch) rfl

theorem proper_sends {sends : List GroupSend} (h : AtEach Proper history)
    (hopen : ∀ send ∈ sends, .opened send.ch ∈ history ∧ .closed send.ch ∉ history) :
    AtEach Proper (history ++ sends.map fun send => .sent send.ch) := by
  induction sends using List.reverseRecOn with
  | nil => simpa using h
  | append_singleton sends send ih =>
    have hearlier := ih fun other hother => hopen other (mem_append_left _ hother)
    have hsend := hopen send (mem_append_right _ (mem_singleton_self send))
    rw [map_append, ← append_assoc]
    refine hearlier.snoc ⟨mem_append_left _ hsend.1, ?_⟩
    rw [mem_append, not_or]
    exact ⟨hsend.2, by simp⟩

theorem Members.opens (h : Members history g) (op : Op) :
    AtEach Proper (history ++ (op.opens g).map .opened) ∧ (op.opens g).Nodup ∧
      ∀ ch ∈ op.opens g, .opened ch ∉ history ∧ ch < g.made + (op.opens g).length := by
  have hnew : .opened g.made ∉ history := fun hmem => Nat.lt_irrefl _ (h.numbered _ hmem)
  cases op with
  | addMember memberID visTimeout now pass =>
    refine ⟨h.proper.snoc hnew, nodup_singleton _, fun ch hch => ?_⟩
    rw [mem_singleton.mp hch]
    exact ⟨hnew, Nat.lt_succ_self _⟩
  | _ => exact ⟨by simpa [Op.opens] using h.proper, nodup_nil, nofun⟩

theorem Members.step {events : List ChannelEvent} (h : Members history g)
    (step : ChannelStep history g events g') : Members (history ++ events) g' := by
  cases step with
  | @call _ reports op happly =>
    have hserves := apply_serves happly
    obtain ⟨hperm, hmade⟩ := effect_channels op g
    obtain ⟨hproper, hopensDistinct, hnew⟩ := h.opens op
    obtain ⟨sends, hsent, hsends⟩ := hserves.sent
    have hnewSends : newSends g g' = sends := by rw [newSends, hsent, effect_sent, drop_left]
    have hchannels : g'.channels = (g.effect op).group.channels := by
      rw [channels, hserves.same.roster, channels]
    -- all channels that were open or are made here are different
    have hdistinct : (g.channels ++ op.opens g).Nodup := by
      refine nodup_append.mpr ⟨h.distinct, hopensDistinct, ?_⟩
      rintro ch hold other hother rfl
      exact (hnew ch hother).1 ((h.listed ch).mp hold).1
    obtain ⟨hkept, hclosesDistinct, hapart⟩ := nodup_append.mp (hperm.nodup_iff.mpr hdistinct)
    have hmem (ch : Nat) : ch ∈ (g.effect op).group.channels ∨ ch ∈ op.closes g ↔
        ch ∈ g.channels ∨ ch ∈ op.opens g := by
      rw [← mem_append, hperm.mem_iff, mem_append]
    have hopen (ch : Nat) : ch ∈ g.channels ∨ ch ∈ op.opens g ↔
        .opened ch ∈ history ++ (op.opens g).map .opened ∧
          .closed ch ∉ history ++ (op.opens g).map .opened := by
      simp only [h.listed, mem_append, mem_map, ChannelEvent.opened.injEq, exists_eq_right,
        reduceCtorEq, and_false, exists_false, or_false]
      have hfresh : ch ∈ op.opens g → .closed ch ∉ history :=
        fun hch hclosed => (hnew ch hch).1 (h.opened ch hclosed)
      tauto
    have hlisted (ch : Nat) : ch ∈ (g.effect op).group.channels ↔
        .opened ch ∈ history ++ (op.opens g).map .opened ++ (op.closes g).map .closed ∧
          .closed ch ∉ history ++ (op.opens g).map .opened ++ (op.closes g).map .closed := by
      have hsplit := (hmem ch).trans (hopen ch)
      have hleft : ch ∈ (g.effect op).group.channels → ch ∉ op.closes g :=
        fun hch hclosed => hapart ch hch ch hclosed rfl
      rw [mem_append, mem_append (s := history ++ _)]
      simp only [mem_map, ChannelEvent.closed.injEq, exists_eq_right, reduceCtorEq, and_false,
        exists_false, or_false]
      tauto
    rw [hnewSends, ← append_assoc, ← append_assoc]
    refine ⟨hserves.named (effect_named op h.named), hchannels ▸ hkept, fun ch => ?_, fun ch hch => ?_,
      fun ch hch => ?_, ?_⟩
    · rw [hchannels, hlisted ch]
      simp
    · rw [hserves.same.made, hmade]
      have hch : .opened ch ∈ history ∨ ch ∈ op.opens g := by simpa using hch
      rcases hch with hold | hmade
      · exact Nat.lt_add_right _ (h.numbered ch hold)
      · exact (hnew ch hmade).2
    · have hch : .closed ch ∈ history ∨ ch ∈ op.closes g := by simpa using hch
      refine mem_append_left _ (mem_append_left _ ?_)
      rcases hch with hold | hclosed
      · exact mem_append_left _ (h.opened ch hold)
      · exact ((hopen ch).mp ((hmem ch).mp (.inr hclosed))).1
    · refine proper_sends (proper_closes hproper hclosesDistinct fun ch hch => ?_) fun send hsend => ?_
      · exact (hopen ch).mp ((hmem ch).mp (.inr hch))
      · exact (hlisted send.ch).mp (hsends send hsend)

end Histories

theorem members_new (name queueName : String) : Members [] (new name queueName) where
  named _ hentry := absurd hentry not_mem_nil
  distinct := nodup_nil
  listed ch := by simp [channels, roster, new]
  numbered _ hch := absurd hch not_mem_nil
  opened _ hch := absurd hch not_mem_nil
  proper := .nil

/-- In every state that calls lead to without a panic, what is in flight names a member of
the list, the channels of the list are those that were made and not closed, and no channel
is sent on, or closed, once it has been closed. -/
theorem members_consistent {name queueName : String} {history : List ChannelEvent}
    (run : ChannelRuns (new name queueName) history g) :
    (∀ entry ∈ g.inFlight.entries, ∃ m ∈ g.members, m.id = entry.memberID) ∧
      (g.members.map GroupMember.ch).Nodup ∧
      (∀ ch, ch ∈ g.members.map GroupMember.ch ↔ .opened ch ∈ history ∧ .closed ch ∉ history) ∧
      AtEach Proper history := by
  have h : Members history g :=
    run.invariant Members (members_new name queueName) fun h step => h.step step
  refine ⟨fun entry hentry => ?_, channels_eq g ▸ h.distinct, channels_eq g ▸ h.listed, h.proper⟩
  have hnamed := h.named entry hentry
  rw [memberIDs_eq] at hnamed
  exact List.mem_map.mp hnamed

/-- A member takes a message, a second one of the same id joins, and the first is removed:
the message goes to the second. -/
theorem members_consistent_same_id : ∃ history g,
    ChannelRuns (new "workers" "orders") history g ∧
      history = [.opened 0, .sent 0, .opened 1, .closed 0, .sent 1] ∧
      g.members.map GroupMember.ch = [1] ∧
      ∀ entry ∈ g.inFlight.entries, ∃ m ∈ g.members, m.id = entry.memberID := by
  have run : ∃ history g, ChannelRuns (new "workers" "orders") history g ∧
      history = [.opened 0, .sent 0, .opened 1, .closed 0, .sent 1] ∧
      g.members.map GroupMember.ch = [1] :=
    ⟨_, _, (((Run.start.next (.call (.addMember "x" 30 0 ⟨0, []⟩) rfl)).next
      (.call (.enqueue (job "a") ⟨0, []⟩) rfl)).next (.call (.addMember "x" 30 0 ⟨0, []⟩) rfl)).next
      (.call (.removeMember "x" (fun _ => 0) [] ⟨0, []⟩) rfl), by decide, by decide⟩
  obtain ⟨history, g, run, hhistory, hchannels⟩ := run
  exact ⟨history, g, run, hhistory, hchannels, (members_consistent run).1⟩

end QwerQ.ConsumerGroup
