import QwerQ.Queue.Registry

/-! Joining and leaving groups. A join takes the group out of the queue's map and
adds the member to what it found; a leave takes the group out of the map, removes
the member, and unregisters whatever is then filed under the name. Connections
interleave between these steps, so a step may act on a group that is no longer
registered: a group is named by its name and a generation, which counts how often
the name was unregistered. -/
namespace QwerQ
open List ConsumerGroup KeyedMap

/-- Where a connection stands between the steps of a join or a leave. -/
inductive Phase where
  | idle
  | joining (group : String) (generation : Nat)
  | leaving (group : String) (generation : Nat)
  | emptied (group : String)
  deriving DecidableEq

/-- `joined` is a history variable: the groups that a connection has joined and not
begun to leave. -/
structure Membership where
  queue : Queue
  generation : String → Nat
  detached : KeyedMap fun object : (String × Nat) × ConsumerGroup => object.1
  phase : String → Phase
  joined : String → List String

namespace Membership
variable {s s' : Membership} {conn group : String} {n : Nat} {g g' : ConsumerGroup}

def new (name : String) : Membership where
  queue := Queue.new name
  generation _ := 0
  detached := ∅
  phase _ := .idle
  joined _ := []

def object (group : String) (n : Nat) (s : Membership) : Option ConsumerGroup :=
  if n = s.generation group then s.queue.groups.find? group
  else (s.detached.find? (group, n)).map Prod.snd

def store (group : String) (n : Nat) (g : ConsumerGroup) (s : Membership) : Membership :=
  if n = s.generation group then
    { s with queue := { s.queue with groups := s.queue.groups.insert g } }
  else { s with detached := s.detached.insert ((group, n), g) }

def turn (conn : String) (phase : Phase) (s : Membership) : Membership :=
  { s with phase := Function.update s.phase conn phase }

def setJoined (conn : String) (groups : List String) (s : Membership) : Membership :=
  { s with joined := Function.update s.joined conn groups }

/-- `RemoveGroup`: those who hold the group still hold it. -/
def detach (group : String) (s : Membership) : Membership :=
  { s with
    queue := s.queue.removeGroup group
    generation := Function.update s.generation group (s.generation group + 1)
    detached := match s.queue.groups.find? group with
      | none => s.detached
      | some g => s.detached.insert ((group, s.generation group), g) }

/-- The steps of `HandleConsume` with a group, and of `HandleUnsubscribe` or a
disconnect. A step that is not a connection's next one does nothing. -/
inductive Action where
  | getOrCreateGroup (conn group : String)
  | addMember (conn : String) (visTimeout : Duration) (now : Time) (pass : Pass)
  | getGroup (conn group : String)
  | removeMember (conn : String) (clock : String → Time) (order : List String) (pass : Pass)
  | removeGroup (conn : String)

def act : Action → Membership → Go Membership
  | .getOrCreateGroup conn group, s =>
      match s.phase conn with
      | .idle => .ok ({ s with queue := s.queue.getOrCreateGroup group }.turn conn
          (.joining group (s.generation group)))
      | _ => .ok s
  | .addMember conn visTimeout now pass, s =>
      match s.phase conn with
      | .joining group n =>
          match s.object group n with
          | none => .error .nilPointer
          | some g => do
              let (g, _) ← g.addMember conn visTimeout now pass
              return ((s.store group n g).setJoined conn (s.joined conn ++ [group])).turn conn .idle
      | _ => .ok s
  | .getGroup conn group, s =>
      match s.phase conn with
      | .idle =>
          let left := s.setJoined conn ((s.joined conn).erase group)
          if s.queue.groups.contains group then
            .ok (left.turn conn (.leaving group (s.generation group)))
          else .ok left
      | _ => .ok s
  | .removeMember conn clock order pass, s =>
      match s.phase conn with
      | .leaving group n =>
          match s.object group n with
          | none => .error .nilPointer
          | some g => do
              let (g, empty) ← g.removeMember conn clock order pass
              return (s.store group n g).turn conn (if empty then .emptied group else .idle)
      | _ => .ok s
  | .removeGroup conn, s =>
      match s.phase conn with
      | .emptied group => .ok ((s.detach group).turn conn .idle)
      | _ => .ok s

inductive Step (guard : Membership → Action → Prop) :
    List Action → Membership → List Action → Membership → Prop where
  | act {history : List Action} {s s' : Membership} (action : Action) :
      guard s action → s.act action = .ok s' → Step guard history s [action] s'

abbrev Runs (guard : Membership → Action → Prop) := Run (Step guard)

def anyAction (_ : Membership) (_ : Action) : Prop := True

/-- No connection has joined the group, or is about to, without leaving. -/
def Unneeded (group : String) (s : Membership) : Prop :=
  ∀ conn, group ∉ s.joined conn ∧ s.phase conn ≠ .joining group (s.generation group)

/-- A name is unregistered only when nobody needs what is registered under it. -/
def careful (s : Membership) : Action → Prop
  | .removeGroup conn => ∀ group, s.phase conn = .emptied group → s.Unneeded group
  | _ => True

def members (group : String) (s : Membership) : List String := (s.queue.rosterOf group).map Prod.fst

/-- Those who joined are members of the registered group, and those about to join
hold it. -/
structure Kept (s : Membership) : Prop where
  joined : ∀ conn group, (s.joined conn).count group ≤ (s.members group).count conn
  joining : ∀ conn group n, s.phase conn = .joining group n →
    n = s.generation group ∧ s.queue.groups.contains group = true
  leaving : ∀ conn group n, s.phase conn = .leaving group n → group ∈ s.joined conn →
    n = s.generation group ∧ (s.joined conn).count group + 1 ≤ (s.members group).count conn

variable {other : String} {pass : Pass} {history : List Action}

theorem kept_new (name : String) : (new name).Kept := by
  refine ⟨fun _ _ => Nat.le_refl 0, ?_, ?_⟩
  · intro _ _ _ h
    cases h
  · intro _ _ _ h
    cases h

@[simp] theorem turn_phase (conn other : String) (phase : Phase) (s : Membership) :
    (s.turn conn phase).phase other = if other = conn then phase else s.phase other :=
  Function.update_apply _ _ _ _

@[simp] theorem setJoined_joined (conn other : String) (groups : List String) (s : Membership) :
    (s.setJoined conn groups).joined other = if other = conn then groups else s.joined other :=
  Function.update_apply _ _ _ _

theorem Kept.frame (conn : String) (h : s.Kept) (hgeneration : s'.generation = s.generation)
    (hfiled : ∀ group, s.queue.groups.contains group = true →
      s'.queue.groups.contains group = true)
    (hothers : ∀ other, other ≠ conn → s'.joined other = s.joined other ∧
      s'.phase other = s.phase other ∧
      ∀ group, (s.members group).count other ≤ (s'.members group).count other)
    (hjoined : ∀ group, (s'.joined conn).count group ≤ (s'.members group).count conn)
    (hjoining : ∀ group n, s'.phase conn = .joining group n →
      n = s.generation group ∧ s'.queue.groups.contains group = true)
    (hleaving : ∀ group n, s'.phase conn = .leaving group n → group ∈ s'.joined conn →
      n = s.generation group ∧ (s'.joined conn).count group + 1 ≤ (s'.members group).count conn) :
    s'.Kept := by
  refine ⟨fun other group => ?_, fun other group n hphase => ?_, fun other group n hphase hin => ?_⟩
  · by_cases heq : other = conn
    · rw [heq]
      exact hjoined group
    · have ⟨hsame, _, hmembers⟩ := hothers other heq
      rw [hsame]
      exact (h.joined other group).trans (hmembers group)
  · rw [hgeneration]
    by_cases heq : other = conn
    · exact hjoining group n (heq ▸ hphase)
    · rw [(hothers other heq).2.1] at hphase
      have ⟨hcurrent, hcontains⟩ := h.joining other group n hphase
      exact ⟨hcurrent, hfiled group hcontains⟩
  · rw [hgeneration]
    by_cases heq : other = conn
    · subst heq
      exact hleaving group n hphase hin
    · have ⟨hsame, hstill, hmembers⟩ := hothers other heq
      rw [hstill] at hphase
      rw [hsame] at hin ⊢
      have ⟨hcurrent, hcount⟩ := h.leaving other group n hphase hin
      exact ⟨hcurrent, hcount.trans (hmembers group)⟩

theorem members_getOrCreateGroup (group other : String) :
    ({ s with queue := s.queue.getOrCreateGroup group } : Membership).members other =
      s.members other := by
  unfold members Queue.getOrCreateGroup
  split
  · rfl
  · rename_i hnew
    simp only [Queue.rosterOf_insert]
    split
    · rename_i heq
      have hnone : s.queue.groups.find? other = none := by
        rw [heq]
        exact Option.not_isSome_iff_eq_none.mp hnew
      rw [Queue.rosterOf, hnone]
      rfl
    · rfl

theorem contains_insert {groups : KeyedMap ConsumerGroup.name}
    (h : groups.contains other = true) : (groups.insert g).contains other = true := by
  rw [KeyedMap.contains, find?_insert]
  split
  · rfl
  · exact h

theorem contains_getOrCreateGroup {q : Queue} (group : String)
    (h : q.groups.contains other = true ∨ other = group) :
    (q.getOrCreateGroup group).groups.contains other = true := by
  unfold Queue.getOrCreateGroup
  split
  · rename_i hold
    rcases h with h | rfl
    · exact h
    · exact hold
  · rcases h with h | rfl
    · exact contains_insert h
    · exact congrArg Option.isSome
        (find?_insert_self q.groups (ConsumerGroup.new other q.name))

theorem Kept.getOrCreateGroup (conn group : String) (h : s.Kept) :
    ({ s with queue := s.queue.getOrCreateGroup group }.turn conn
      (.joining group (s.generation group)) : Membership).Kept := by
  have hmembers := members_getOrCreateGroup (s := s) group
  refine h.frame conn rfl (fun other hother => contains_getOrCreateGroup group (.inl hother))
    (fun other hne => ⟨rfl, ?_, fun name => ?_⟩) (fun name => ?_) ?_ ?_
  · rw [turn_phase, if_neg hne]
  · exact (congrArg (List.count other) (hmembers name)).ge
  · exact (h.joined conn name).trans (congrArg (List.count conn) (hmembers name)).ge
  · intro name n hphase
    rw [turn_phase, if_pos rfl] at hphase
    cases hphase
    exact ⟨rfl, contains_getOrCreateGroup group (.inr rfl)⟩
  · intro name n hphase
    rw [turn_phase, if_pos rfl] at hphase
    cases hphase

theorem object_current (h : s.object group (s.generation group) = some g) :
    s.queue.groups.find? group = some g := by
  rwa [object, if_pos rfl] at h

theorem members_of_find? (h : s.queue.groups.find? group = some g) :
    s.members group = g.roster.map Prod.fst := by
  rw [members, Queue.rosterOf, h]
  rfl

theorem store_current (group : String) (g : ConsumerGroup) (s : Membership) :
    s.store group (s.generation group) g =
      { s with queue := { s.queue with groups := s.queue.groups.insert g } } :=
  if_pos rfl

theorem members_insert (hname : g.name = group) (other : String) :
    ({ s with queue := { s.queue with groups := s.queue.groups.insert g } } : Membership).members
      other = if other = group then g.roster.map Prod.fst else s.members other := by
  rw [members, Queue.rosterOf_insert, hname]
  split <;> rfl

theorem Kept.addMember {visTimeout : Duration} {now : Time} {ch : Nat} (h : s.Kept)
    (hphase : s.phase conn = .joining group n) (hobject : s.object group n = some g)
    (hadd : g.addMember conn visTimeout now pass = .ok (g', ch)) :
    (((s.store group n g').setJoined conn (s.joined conn ++ [group])).turn conn .idle).Kept := by
  have ⟨hcurrent, _⟩ := h.joining conn group n hphase
  subst hcurrent
  have hfind := object_current hobject
  have ⟨_, hname, _, hroster⟩ := addMember_roster hadd
  have hgroup : g'.name = group := hname.trans (find?_eq_some_iff.mp hfind).2
  have hmembers (name : String) :
      (((s.store group (s.generation group) g').setJoined conn (s.joined conn ++ [group])).turn
        conn .idle).members name =
        if name = group then s.members group ++ [conn] else s.members name := by
    rw [store_current, members_of_find? hfind]
    refine (members_insert hgroup name).trans ?_
    rw [hroster, map_append]
    rfl
  have hjoined : (((s.store group (s.generation group) g').setJoined conn
      (s.joined conn ++ [group])).turn conn .idle).joined conn = s.joined conn ++ [group] :=
    (setJoined_joined ..).trans (if_pos rfl)
  refine h.frame conn (by rw [store_current]; rfl) (fun name hname => ?_)
    (fun other hne => ⟨?_, ?_, fun name => ?_⟩) (fun name => ?_) ?_ ?_
  · rw [store_current]
    exact contains_insert hname
  · rw [store_current]
    exact (setJoined_joined ..).trans (if_neg hne)
  · rw [store_current]
    exact (turn_phase ..).trans (if_neg hne)
  · rw [hmembers]
    split
    · rename_i heq
      rw [heq, count_append]
      exact Nat.le_add_right _ _
    · exact Nat.le_refl _
  · rw [hmembers, hjoined, count_append]
    by_cases heq : name = group
    · rw [if_pos heq, heq, count_append, count_singleton_self, count_singleton_self]
      exact Nat.add_le_add_right (h.joined conn group) 1
    · have hother : [group].count name = 0 :=
        count_eq_zero_of_not_mem fun hin => heq (mem_singleton.mp hin)
      rw [if_neg heq, hother]
      exact h.joined conn name
  · intro name m hidle
    rw [turn_phase, if_pos rfl] at hidle
    cases hidle
  · intro name m hidle
    rw [turn_phase, if_pos rfl] at hidle
    cases hidle

theorem joined_erase (h : s.Kept) (name : String) :
    ((s.joined conn).erase group).count name ≤ (s.members name).count conn :=
  (erase_sublist.count_le name).trans (h.joined conn name)

theorem Kept.leave (h : s.Kept) (hphase : s.phase conn = .idle) :
    (s.setJoined conn ((s.joined conn).erase group)).Kept := by
  refine h.frame conn rfl (fun _ hfiled => hfiled) (fun other hne => ⟨?_, rfl, fun _ => Nat.le_refl _⟩)
    (fun name => ?_) (fun name n hjoining => ?_) (fun name n hleaving => ?_)
  · exact (setJoined_joined ..).trans (if_neg hne)
  · rw [setJoined_joined, if_pos rfl]
    exact joined_erase h name
  · exact absurd (hphase.symm.trans hjoining) (by simp)
  · exact absurd (hphase.symm.trans hleaving) (by simp)

theorem Kept.getGroup (conn group : String) (h : s.Kept) :
    ((s.setJoined conn ((s.joined conn).erase group)).turn conn
      (.leaving group (s.generation group))).Kept := by
  have hjoined : ((s.setJoined conn ((s.joined conn).erase group)).turn conn
      (.leaving group (s.generation group))).joined conn = (s.joined conn).erase group :=
    (setJoined_joined ..).trans (if_pos rfl)
  refine h.frame conn rfl (fun _ hfiled => hfiled) (fun other hne => ⟨?_, ?_, fun _ => Nat.le_refl _⟩)
    (fun name => ?_) (fun name n hphase => ?_) (fun name n hphase hin => ?_)
  · exact (setJoined_joined ..).trans (if_neg hne)
  · exact (turn_phase ..).trans (if_neg hne)
  · rw [hjoined]
    exact joined_erase h name
  · rw [turn_phase, if_pos rfl] at hphase
    cases hphase
  · rw [turn_phase, if_pos rfl] at hphase
    cases hphase
    rw [hjoined] at hin ⊢
    have hpos := count_pos_iff.mpr (mem_of_mem_erase hin)
    have hcount : (s.joined conn).count group ≤ (s.members group).count conn := h.joined conn group
    refine ⟨rfl, ?_⟩
    rw [count_erase_self]
    change _ ≤ (s.members group).count conn
    omega

theorem removeMember_members {clock : String → Time} {order : List String}
    {empty : Bool} (hremove : g.removeMember conn clock order pass = .ok (g', empty)) :
    g'.roster.map Prod.fst = (g.roster.map Prod.fst).erase conn := by
  rw [(removeMember_roster hremove).2.2.1, erase_eq_eraseP', eraseP_map]
  rfl

theorem Kept.removeMember {clock : String → Time} {order : List String}
    {empty : Bool} {phase : Phase} (h : s.Kept) (hphase : s.phase conn = .leaving group n)
    (hobject : s.object group n = some g)
    (hremove : g.removeMember conn clock order pass = .ok (g', empty))
    (hjoining : ∀ group n, phase ≠ .joining group n)
    (hleaving : ∀ group n, phase ≠ .leaving group n) :
    ((s.store group n g').turn conn phase).Kept := by
  have hturned (m : Membership) : (m.turn conn phase).phase conn = phase := by
    rw [turn_phase, if_pos rfl]
  by_cases hcurrent : n = s.generation group
  · subst hcurrent
    have hfind := object_current hobject
    have hgroup : g'.name = group := by
      rw [(removeMember_roster hremove).1]
      exact (find?_eq_some_iff.mp hfind).2
    have hmembers (name : String) :
        ((s.store group (s.generation group) g').turn conn phase).members name =
          if name = group then (s.members group).erase conn else s.members name := by
      rw [store_current, members_of_find? hfind, ← removeMember_members hremove]
      exact members_insert hgroup name
    refine h.frame conn (by rw [store_current]; rfl) (fun name hname => ?_)
      (fun other hne => ⟨?_, ?_, fun name => ?_⟩) (fun name => ?_)
      (fun name m heq => absurd ((hturned _).symm.trans heq) (hjoining name m))
      (fun name m heq => absurd ((hturned _).symm.trans heq) (hleaving name m))
    · rw [store_current]
      exact contains_insert hname
    · rw [store_current]
      rfl
    · rw [store_current]
      exact (turn_phase ..).trans (if_neg hne)
    · rw [hmembers]
      split
      · rename_i heq
        rw [heq, count_erase_of_ne hne]
      · exact Nat.le_refl _
    · have hsame : ((s.store group (s.generation group) g').turn conn phase).joined conn =
          s.joined conn := by
        rw [store_current]
        rfl
      rw [hmembers, hsame]
      split
      · rename_i heq
        rw [heq, count_erase_self]
        by_cases hin : group ∈ s.joined conn
        · have hcount := (h.leaving conn group _ hphase hin).2
          omega
        · rw [count_eq_zero_of_not_mem hin]
          exact Nat.zero_le _
      · exact h.joined conn name
  · have hstale : s.store group n g' =
        { s with detached := s.detached.insert ((group, n), g') } := if_neg hcurrent
    rw [hstale]
    refine h.frame conn rfl (fun _ hfiled => hfiled)
      (fun other hne => ⟨rfl, (turn_phase ..).trans (if_neg hne), fun _ => Nat.le_refl _⟩)
      (h.joined conn) (fun name m heq => absurd ((hturned _).symm.trans heq) (hjoining name m))
      (fun name m heq => absurd ((hturned _).symm.trans heq) (hleaving name m))

theorem detach_members (group other : String) (s : Membership) :
    (s.detach group).members other = if other = group then [] else s.members other := by
  rw [members, Queue.rosterOf, detach, Queue.removeGroup, find?_erase]
  split <;> rfl

theorem detach_generation (group other : String) (s : Membership) :
    (s.detach group).generation other =
      if other = group then s.generation group + 1 else s.generation other :=
  Function.update_apply _ _ _ _

theorem detach_contains (hne : other ≠ group) :
    (s.detach group).queue.groups.contains other = s.queue.groups.contains other := by
  rw [KeyedMap.contains, detach, Queue.removeGroup, find?_erase, if_neg hne]
  rfl

theorem Kept.removeGroup (h : s.Kept) (hneed : s.Unneeded group) :
    ((s.detach group).turn conn .idle).Kept := by
  refine ⟨fun other name => ?_, fun other name n hphase => ?_, fun other name n hphase hin => ?_⟩
  · refine Nat.le_trans ?_ (congrArg (List.count other) (detach_members group name s)).ge
    split
    · rename_i heq
      rw [heq]
      exact (count_eq_zero_of_not_mem (hneed other).1).le
    · exact h.joined other name
  · rw [turn_phase] at hphase
    split at hphase
    · cases hphase
    · have ⟨hcurrent, hfiled⟩ := h.joining other name n hphase
      have hne : name ≠ group := by
        rintro rfl
        exact (hneed other).2 (hcurrent ▸ hphase)
      refine ⟨hcurrent.trans ?_, (detach_contains hne).trans hfiled⟩
      exact ((detach_generation group name s).trans (if_neg hne)).symm
  · rw [turn_phase] at hphase
    split at hphase
    · cases hphase
    · have hne : name ≠ group := by
        rintro rfl
        exact (hneed other).1 hin
      have ⟨hcurrent, hcount⟩ := h.leaving other name n hphase hin
      constructor
      · exact hcurrent.trans ((detach_generation group name s).trans (if_neg hne)).symm
      · refine hcount.trans ?_
        exact (congrArg (List.count other) ((detach_members group name s).trans (if_neg hne))).ge

/-- Unregistering a name keeps everybody who joined it just when nobody needs it. -/
theorem kept_removeGroup_iff (h : s.Kept) (hphase : s.phase conn = .emptied group) :
    ((s.detach group).turn conn .idle).Kept ↔ s.Unneeded group := by
  refine ⟨fun hkept other => ⟨fun hin => ?_, fun hjoining => ?_⟩, h.removeGroup⟩
  · have hcount := hkept.joined other group
    have hnone : ((s.detach group).turn conn .idle).members group = [] :=
      (detach_members group group s).trans (if_pos rfl)
    rw [hnone, count_nil] at hcount
    exact absurd (count_pos_iff.mpr hin) (Nat.not_lt.mpr hcount)
  · have hne : other ≠ conn := by
      rintro rfl
      rw [hphase] at hjoining
      cases hjoining
    have hstill : ((s.detach group).turn conn .idle).phase other =
        .joining group (s.generation group) := (turn_phase ..).trans ((if_neg hne).trans hjoining)
    have hgeneration := (hkept.joining other group _ hstill).1
    have hnext : ((s.detach group).turn conn .idle).generation group = s.generation group + 1 :=
      (detach_generation group group s).trans (if_pos rfl)
    omega

theorem Kept.step {actions : List Action} (h : s.Kept)
    (step : Step careful history s actions s') : s'.Kept := by
  cases step with
  | act action hcareful hact =>
    cases action with
    | getOrCreateGroup conn group =>
      simp only [act] at hact
      split at hact
      · cases hact
        exact h.getOrCreateGroup conn group
      · cases hact
        exact h
    | addMember conn visTimeout now pass =>
      simp only [act] at hact
      split at hact
      · rename_i group n hphase
        split at hact
        · cases hact
        · rename_i g hobject
          simp only [Go.bind_eq_ok] at hact
          obtain ⟨⟨g', _⟩, hadd, hret⟩ := hact
          cases hret
          exact h.addMember hphase hobject hadd
      · cases hact
        exact h
    | getGroup conn group =>
      simp only [act] at hact
      split at hact
      · rename_i hphase
        split at hact
        · cases hact
          exact h.getGroup conn group
        · cases hact
          exact h.leave hphase
      · cases hact
        exact h
    | removeMember conn clock order pass =>
      simp only [act] at hact
      split at hact
      · rename_i group n hphase
        split at hact
        · cases hact
        · rename_i g hobject
          simp only [Go.bind_eq_ok] at hact
          obtain ⟨⟨g', empty⟩, hremove, hret⟩ := hact
          cases hret
          cases empty <;> exact h.removeMember hphase hobject hremove nofun nofun
      · cases hact
        exact h
    | removeGroup conn =>
      simp only [act] at hact
      split at hact
      · rename_i group hphase
        cases hact
        exact h.removeGroup (hcareful group hphase)
      · cases hact
        exact h

theorem Runs.kept {name : String}
    (run : Runs careful (new name) history s) : s.Kept :=
  run.invariant (fun _ s => s.Kept) (kept_new name) fun h step => h.step step

def Quiescent (s : Membership) : Prop := ∀ conn, s.phase conn = .idle

/-- Whoever joined a group and has not left is a member of the registered group, which
is given every message that the queue accepts. -/
def Attached (s : Membership) : Prop :=
  ∀ conn group, group ∈ s.joined conn → ∃ g, s.queue.groups.find? group = some g ∧
    conn ∈ g.members.map GroupMember.id ∧
    ∀ msg env q, s.queue.enqueue msg env = .ok (q, none) →
      ∃ g', g.enqueue msg (env.group group) = .ok g' ∧ q.groups.find? group = some g'

theorem Kept.attached (h : s.Kept) : s.Attached := by
  intro conn group hin
  have hmember : conn ∈ s.members group :=
    count_pos_iff.mp (Nat.lt_of_lt_of_le (count_pos_iff.mpr hin) (h.joined conn group))
  cases hfind : s.queue.groups.find? group with
  | none =>
    rw [members, Queue.rosterOf, hfind] at hmember
    cases hmember
  | some g =>
    rw [members_of_find? hfind, ConsumerGroup.roster, map_map] at hmember
    refine ⟨g, rfl, hmember, fun msg env q haccepted => ?_⟩
    rcases Queue.enqueue_cases haccepted with ⟨_, _, hfull⟩ | ⟨_, _, hdirect⟩
    · cases hfull
    · simp only [Queue.enqueueDirect, Go.bind_eq_ok] at hdirect
      obtain ⟨delivered, hpass, hfan⟩ := hdirect
      obtain ⟨_, pass⟩ := Queue.tryDeliver_delivers hpass
      have hgroups : delivered.groups = s.queue.groups := by rw [pass.same]
      rcases Queue.forGroups_visits (fun hok => (enqueue_sameRoster hok).name) hfan
        group with ⟨hnone, _⟩ | ⟨before, after, hbefore, hok, hafter⟩
      · rw [hgroups, hfind] at hnone
        cases hnone
      · rw [hgroups, hfind] at hbefore
        cases hbefore
        rw [(find?_eq_some_iff.mp hfind).2] at hok
        exact ⟨after, hok, hafter⟩

/-- In a run that unregisters a name only when nobody needs it, whoever joined is a
member of what is registered; and to unregister it otherwise breaks this. -/
theorem members_registered {name : String} {history : List Action}
    (run : Runs careful (new name) history s) :
    s.Attached ∧ ∀ conn group s', s.phase conn = .emptied group →
      s.act (.removeGroup conn) = .ok s' → (s'.Kept ↔ s.Unneeded group) := by
  refine ⟨run.kept.attached, fun conn group s' hphase hact => ?_⟩
  simp only [act, hphase] at hact
  cases hact
  exact kept_removeGroup_iff run.kept hphase

theorem runs_of_foldlM {guard : Membership → Action → Prop} {start : Membership}
    {actions : List Action} (run : Runs guard start history s)
    (hguard : ∀ action ∈ actions, ∀ s, guard s action)
    (h : actions.foldlM (fun s action => s.act action) s = .ok s') :
    Runs guard start (history ++ actions) s' := by
  induction actions generalizing s history with
  | nil =>
    cases h
    rwa [append_nil]
  | cons action rest ih =>
    rw [foldlM_cons, Go.bind_eq_ok] at h
    have ⟨next, hact, hrest⟩ := h
    have ⟨hfirst, hlater⟩ := forall_mem_cons.mp hguard
    have hrun := ih (run.next (.act action (hfirst s) hact)) hlater hrest
    rwa [append_assoc] at hrun

private def join (conn : String) : List Action :=
  [.getOrCreateGroup conn "workers", .addMember conn 30 0 ⟨0, []⟩]

private def leave (conn : String) : List Action :=
  [.getGroup conn "workers", .removeMember conn (fun _ => 0) [] ⟨0, []⟩]

private theorem careful_joinLeave (conn : String) :
    ∀ action ∈ join conn ++ leave conn, ∀ s, careful s action := by
  intro action haction s
  simp only [join, leave, List.cons_append, List.nil_append, List.mem_cons, List.not_mem_nil,
    or_false] at haction
  rcases haction with rfl | rfl | rfl | rfl <;> trivial

/-- The last member leaves and the name is unregistered, which nobody needs then; the
next to join is a member of a new group. -/
theorem members_registered_two :
    ∃ history s, Runs careful (new "orders") history s ∧ .removeGroup "x" ∈ history ∧
      s.joined "y" = ["workers"] ∧ s.Attached := by
  have hplay : ∃ left removed s, (join "x" ++ leave "x").foldlM (fun s action => act action s)
      (new "orders") = .ok left ∧ left.phase "x" = .emptied "workers" ∧ left.Unneeded "workers" ∧
      left.act (.removeGroup "x") = .ok removed ∧
      (join "y").foldlM (fun s action => act action s) removed = .ok s ∧
      s.joined "y" = ["workers"] := by
    refine ⟨_, _, _, rfl, rfl, fun conn => ?_, rfl, rfl, rfl⟩
    by_cases hx : conn = "x"
    · rw [hx]
      exact ⟨List.not_mem_nil, fun h => by cases h⟩
    · simp [turn, setJoined, store, new, hx]
  obtain ⟨left, removed, s, hleft, hphase, hunneeded, hremoved, hjoins, hjoined⟩ := hplay
  have run : Runs careful (new "orders") _ left := runs_of_foldlM .start (careful_joinLeave "x") hleft
  have hcareful : careful left (.removeGroup "x") := by
    intro group hgroup
    rw [hphase] at hgroup
    cases hgroup
    exact hunneeded
  have hall := runs_of_foldlM (run.next (.act _ hcareful hremoved)) (fun action haction =>
    careful_joinLeave "y" action (List.mem_append_left _ haction)) hjoins
  exact ⟨_, s, hall, by simp, hjoined, (members_registered hall).1⟩

/-- The last member leaves while another connection joins: the group that the second
has just joined is unregistered. -/
theorem join_lost_to_leave :
    ∃ history s, Runs anyAction (new "orders") history s ∧ s.Quiescent ∧
      s.joined "y" = ["workers"] ∧ s.queue.groups.find? "workers" = none ∧ ¬ s.Attached := by
  have hplay : ∃ s, (join "x" ++ leave "x" ++ join "y" ++ [Action.removeGroup "x"]).foldlM
      (fun s action => s.act action) (new "orders") = .ok s ∧ s.Quiescent ∧
      s.joined "y" = ["workers"] ∧ s.queue.groups.find? "workers" = none := by
    refine ⟨_, rfl, fun conn => ?_, rfl, rfl⟩
    by_cases hx : conn = "x"
    · rw [hx]
      rfl
    by_cases hy : conn = "y"
    · rw [hy]
      rfl
    simp [turn, setJoined, detach, store, new, hx, hy]
  obtain ⟨s, hplay, hquiescent, hjoined, hnone⟩ := hplay
  refine ⟨_, s, runs_of_foldlM .start (fun _ _ _ => trivial) hplay, hquiescent, hjoined, hnone, ?_⟩
  intro h
  obtain ⟨g, hfind, _⟩ := h "y" "workers" (by rw [hjoined]; exact List.mem_singleton_self _)
  rw [hnone] at hfind
  cases hfind

end Membership
end QwerQ
