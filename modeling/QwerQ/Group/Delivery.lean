import QwerQ.Group
import QwerQ.Library.Run

/-! A group's delivery pass. The member loop goes on after a member has accepted
the head of the list, so a pass hands each message to one member only if no
member it still looks at can take another one: `singleTaker`. -/
namespace QwerQ.ConsumerGroup
open List
variable {g : ConsumerGroup} {now : Time} {js : List Nat} {rx : List Bool}

/-- A member found ready: where it stands, and what the member loop has left. -/
structure Offer where
  idx : Nat
  member : GroupMember
  later : List Nat
  rx : List Bool
  deriving DecidableEq

variable {sends : List GroupSend} {offer : Offer} {rounds : Nat}

@[simp] theorem handOver_members_length (now : Time) (idx : Nat) (m : GroupMember)
    (msg : GroupMessage) (rest : List GroupMessage) (g : ConsumerGroup) :
    (g.handOver now idx m msg rest).members.length = g.members.length :=
  length_set

theorem accept_ok {idx : Nat} {m : GroupMember} {s s' : Scan} (h : accept now idx m s = .ok s') :
    ∃ head rest, s.group.messages = head :: rest ∧ s' = s.take now idx m rest := by
  unfold accept at h
  split at h
  · cases h
  · rename_i hcut
    cases h
    exact ⟨_, _, hcut, rfl⟩

def firstReady : List Nat → List Bool → ConsumerGroup → Option Offer
  | [], _, _ => none
  | j :: js, rx, g =>
      let idx := (g.nextIdx + j) % g.members.length
      match g.members[idx]? with
      | none => none
      | some m =>
          if rx.headD false || m.buffer.isNone then some ⟨idx, m, js, rx.tail⟩
          else firstReady js rx.tail g

def noneReady (js : List Nat) (rx : List Bool) (g : ConsumerGroup) : Bool :=
  (firstReady js rx g).isNone

/-- Each message that the pass hands out has a single taker: once a member has
accepted it, no member that the same loop still looks at is ready. The list is
the group's pending list. -/
def singleTaker (now : Time) : List GroupMessage → List Bool → ConsumerGroup → Bool
  | [], _, _ => true
  | msg :: rest, rx, g =>
      if now < msg.visibleAt then true
      else
        match firstReady (List.range g.members.length) rx g with
        | none => true
        | some offer =>
            let g' := g.handOver now offer.idx offer.member msg rest
            noneReady offer.later offer.rx g' && singleTaker now rest (rx.drop g.members.length) g'

private theorem member_at (hmembers : 0 < g.members.length) (j : Nat) :
    ∃ m, g.members[(g.nextIdx + j) % g.members.length]? = some m :=
  ⟨_, getElem?_eq_getElem (Nat.mod_lt _ hmembers)⟩

theorem scan_noneReady (now : Time) (msg : GroupMessage) (delivered : Bool)
    (hmembers : 0 < g.members.length) (hnone : firstReady js rx g = none) :
    scan now js ⟨g, msg, delivered, rx⟩ = .ok ⟨g, msg, delivered, rx.drop js.length⟩ := by
  induction js generalizing rx with
  | nil => rfl
  | cons j js ih =>
    have ⟨m, hmember⟩ := member_at hmembers j
    simp only [firstReady, hmember] at hnone
    simp only [scan, hmember]
    split at hnone
    · cases hnone
    · rename_i hbusy
      rw [if_neg hbusy, ih hnone]
      cases rx <;> simp

theorem scan_firstReady {msg : GroupMessage} {rest : List GroupMessage}
    (hmembers : 0 < g.members.length) (hhead : g.messages = msg :: rest)
    (hready : firstReady js rx g = some offer)
    (hsingle : noneReady offer.later offer.rx (g.handOver now offer.idx offer.member msg rest) = true) :
    scan now js ⟨g, msg, false, rx⟩ =
      .ok ⟨g.handOver now offer.idx offer.member msg rest, leased now offer.member msg, true, rx.drop js.length⟩ := by
  induction js generalizing rx with
  | nil => cases hready
  | cons j js ih =>
    have ⟨m, hmember⟩ := member_at hmembers j
    simp only [firstReady, hmember] at hready
    simp only [scan, hmember]
    split at hready
    · rename_i htakes
      cases hready
      have hlater := scan_noneReady now (leased now m msg) true
        (by rwa [handOver_members_length]) (Option.isNone_iff_eq_none.mp hsingle)
      rw [if_pos htakes, accept]
      simp only [hhead]
      refine hlater.trans ?_
      cases rx <;> simp
    · rename_i hbusy
      rw [if_neg hbusy, ih hready]
      cases rx <;> simp

theorem firstReady_member (h : firstReady js rx g = some offer) :
    g.members[offer.idx]? = some offer.member := by
  induction js generalizing rx with
  | nil => cases h
  | cons j js ih =>
    simp only [firstReady] at h
    split at h
    · cases h
    · split at h
      · cases h
        assumption
      · exact ih h

/-- A delivery: the head of the pending list goes to one member and leaves the
list, and nothing else is sent. -/
inductive HandOverStep (now : Time) :
    List GroupSend → ConsumerGroup → List GroupSend → ConsumerGroup → Prop where
  | handOver {history : List GroupSend} {g : ConsumerGroup} {idx : Nat} {m : GroupMember}
      {msg : GroupMessage} {rest : List GroupMessage} : g.messages = msg :: rest →
      msg.visibleAt ≤ now → g.members[idx]? = some m →
      HandOverStep now history g [⟨m.ch, m.id, msg⟩] (g.handOver now idx m msg rest)

abbrev HandsOver (now : Time) := Run (HandOverStep now)

private theorem deliverLoop_handsOver {start : ConsumerGroup}
    {messages : List GroupMessage} (hmembers : 0 < g.members.length) (hmessages : g.messages = messages)
    (hsingle : singleTaker now messages rx g = true) (run : HandsOver now start sends g) :
    ∃ g' sends', deliverLoop now messages.length rx g = .ok g' ∧ HandsOver now start sends' g' := by
  induction messages generalizing g rx sends with
  | nil => exact ⟨g, sends, rfl, run⟩
  | cons msg rest ih =>
    rw [length_cons, deliverLoop]
    simp only [hmessages]
    by_cases hearly : now < msg.visibleAt
    · rw [if_pos hearly]
      exact ⟨g, sends, rfl, run⟩
    · rw [if_neg hearly]
      simp only [singleTaker, hearly, if_false] at hsingle
      cases hoffer : firstReady (List.range g.members.length) rx g with
      | none =>
        rw [scan_noneReady now msg false hmembers hoffer]
        exact ⟨g, sends, rfl, run⟩
      | some offer =>
        simp only [hoffer, Bool.and_eq_true] at hsingle
        rw [scan_firstReady hmembers hmessages hoffer hsingle.1, length_range]
        exact ih (by rwa [handOver_members_length]) rfl hsingle.2
          (.next run (.handOver hmessages (Int.not_lt.mp hearly) (firstReady_member hoffer)))

theorem tryDeliver_handsOver {pass : Pass}
    (hsingle : singleTaker pass.now g.messages pass.rx g = true) :
    ∃ g' sends, g.tryDeliver pass = .ok g' ∧ HandsOver pass.now g sends g' := by
  unfold tryDeliver
  split
  · exact ⟨g, [], rfl, .start⟩
  · rename_i hwork
    have hmembers : 0 < g.members.length := by
      rw [length_pos_iff]
      intro hnil
      simp [hnil] at hwork
    exact deliverLoop_handsOver hmembers rfl hsingle .start

theorem HandsOver.sent {g' : ConsumerGroup}
    (run : HandsOver now g sends g') : g'.sent = g.sent ++ sends :=
  run.invariant (fun sends g' => g'.sent = g.sent ++ sends) (append_nil _).symm
    (fun h step => by
      cases step
      rw [← append_assoc, ← h]
      rfl)

section Invariant
variable {inv : ConsumerGroup → Prop} {head : GroupMessage → Prop}
  (hhead : ∀ {g msg rest}, inv g → g.messages = msg :: rest → head msg)
  (haccept : ∀ {now idx m s s'}, inv s.group → head s.msg → s.group.members[idx]? = some m →
    accept now idx m s = .ok s' → inv s'.group ∧ head s'.msg)
include haccept

theorem scan_invariant {s s' : Scan} (hs : inv s.group) (hmsg : head s.msg)
    (h : scan now js s = .ok s') : inv s'.group := by
  induction js generalizing s with
  | nil =>
    cases h
    exact hs
  | cons j js ih =>
    simp only [scan] at h
    split at h
    · cases h
    · rename_i m hm
      split at h
      · rw [Go.bind_eq_ok] at h
        have ⟨taken, htaken, hrest⟩ := h
        have ⟨hgroup, hhead⟩ := @haccept now _ m { s with rx := s.rx.tail } taken hs hmsg hm htaken
        exact ih hgroup hhead hrest
      · exact @ih { s with rx := s.rx.tail } hs hmsg h

include hhead

theorem deliverLoop_invariant {g' : ConsumerGroup} (hg : inv g)
    (h : deliverLoop now rounds rx g = .ok g') : inv g' := by
  induction rounds generalizing g rx with
  | zero =>
    cases h
    exact hg
  | succ rounds ih =>
    simp only [deliverLoop] at h
    split at h
    · cases h
      exact hg
    · rename_i msg rest hmessages
      split at h
      · cases h
        exact hg
      · rw [Go.bind_eq_ok] at h
        have ⟨s, hscan, hrest⟩ := h
        have hscanned := @scan_invariant _ _ _ _ haccept ⟨g, msg, false, rx⟩ s hg
          (hhead hg hmessages) hscan
        split at hrest
        · exact ih hscanned hrest
        · cases hrest
          exact hscanned

/-- What holds of the group before a pass, and of the head of the list with it, and is kept
whenever a member of the list accepts the head, holds after the pass. -/
theorem tryDeliver_invariant {pass : Pass} {g' : ConsumerGroup} (hg : inv g)
    (h : g.tryDeliver pass = .ok g') : inv g' := by
  unfold tryDeliver at h
  split at h
  · cases h
    exact hg
  · exact deliverLoop_invariant hhead haccept hg h

end Invariant

theorem tryDeliver_sends {pass : Pass} {g' : ConsumerGroup} (h : g.tryDeliver pass = .ok g') :
    g' = g ∨ g.sent.length < g'.sent.length := by
  refine @tryDeliver_invariant g (fun g' => g' = g ∨ g.sent.length < g'.sent.length)
    (fun _ => True) (fun _ _ => trivial) ?_ pass g' (.inl rfl) h
  intro now idx m s s' hsent _ _ htaken
  have hmore : s.group.sent.length < s'.group.sent.length := by
    obtain ⟨_, _, _, rfl⟩ := accept_ok htaken
    simp only [Scan.take, handOver, length_append, length_singleton, Nat.lt_succ_self]
  refine ⟨.inr ?_, trivial⟩
  rcases hsent with hsame | hbefore
  · exact hsame ▸ hmore
  · exact hbefore.trans hmore

theorem tryDeliver_early {pass : Pass} (h : ∀ msg ∈ g.messages.head?, pass.now < msg.visibleAt) :
    g.tryDeliver pass = .ok g := by
  unfold tryDeliver
  split
  · rfl
  · cases hmessages : g.messages with
    | nil => rfl
    | cons msg rest =>
      rw [hmessages] at h
      rw [length_cons, deliverLoop, hmessages]
      exact if_pos (h msg rfl)

private theorem scan_shortens {s s' : Scan} (h : scan now js s = .ok s') :
    s'.group.messages.length ≤ s.group.messages.length ∧
      (s'.delivered = true → s.delivered = true ∨
        s'.group.messages.length < s.group.messages.length) := by
  induction js generalizing s with
  | nil =>
    cases h
    exact ⟨Nat.le_refl _, .inl⟩
  | cons j js ih =>
    simp only [scan] at h
    split at h
    · cases h
    · split at h
      · rw [Go.bind_eq_ok] at h
        have ⟨taken, haccept, hrest⟩ := h
        have hlater := ih hrest
        obtain ⟨_, _, hcut, rfl⟩ := accept_ok haccept
        simp only [Scan.take, handOver] at hlater hcut
        rw [hcut, length_cons]
        exact ⟨by omega, fun _ => .inr (by omega)⟩
      · have hlater := ih h
        exact hlater

private theorem deliverLoop_succ (hrounds : g.messages.length ≤ rounds) :
    deliverLoop now (rounds + 1) rx g = deliverLoop now rounds rx g := by
  induction rounds generalizing g rx with
  | zero =>
    have hnil := eq_nil_of_length_eq_zero (Nat.le_zero.mp hrounds)
    simp [deliverLoop, hnil]
  | succ rounds ih =>
    rw [deliverLoop, deliverLoop]
    split
    · rfl
    · rename_i msg rest hhead
      split
      · rfl
      · cases hscan : scan now (List.range g.members.length) ⟨g, msg, false, rx⟩ with
        | error panic => rfl
        | ok s =>
          have hshorter := (scan_shortens hscan).2
          simp only [bind, Except.bind]
          split
          · rename_i hdelivered
            refine ih ?_
            have hlt := hshorter hdelivered
            simp only [Bool.false_eq_true, false_or] at hlt
            omega
          · rfl

/-- The pending list bounds the rounds: more rounds change nothing. -/
theorem deliverLoop_rounds (now : Time) (rx : List Bool) (g : ConsumerGroup) (more : Nat) :
    deliverLoop now (g.messages.length + more) rx g = deliverLoop now g.messages.length rx g := by
  induction more with
  | zero => rfl
  | succ more ih => rw [← Nat.add_assoc, deliverLoop_succ (Nat.le_add_right _ _), ih]

end QwerQ.ConsumerGroup
