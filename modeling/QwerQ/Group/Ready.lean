import QwerQ.Group.Delivery

/-! When a group's delivery pass panics. The scan over the members goes on after one of
them has taken the message, and every further one cuts the pending list again; a scan
that finds more takers than messages panics. How many it finds depends on the members'
channels, on what their receivers do, and on whose turn it is. -/
namespace QwerQ.ConsumerGroup
open List
variable {g : ConsumerGroup} {now : Time}

/-- Which channels are empty, and whose turn it is. -/
structure Turn where
  empty : List Bool
  nextIdx : Nat

def turn (g : ConsumerGroup) : Turn := ⟨g.members.map fun m => m.buffer.isNone, g.nextIdx⟩

/-- What a scan comes to: how many members take the message, the receives still to come,
and the turn it leaves. -/
structure Takers where
  count : Nat
  rx : List Bool
  turn : Turn

def takers : List Nat → List Bool → Turn → Takers
  | [], rx, turn => ⟨0, rx, turn⟩
  | j :: js, rx, turn =>
      let idx := (turn.nextIdx + j) % turn.empty.length
      if rx.headD false || turn.empty.getD idx false then
        let rest := takers js rx.tail ⟨turn.empty.set idx false, (idx + 1) % turn.empty.length⟩
        ⟨rest.count + 1, rest.rx, rest.turn⟩
      else takers js rx.tail turn

/-- No scan of the pass finds more takers than messages. `waiting` are the times from
which the pending messages are visible. -/
def enough (now : Time) : Nat → List Bool → Turn → List Time → Bool
  | 0, _, _, _ => true
  | rounds + 1, rx, turn, waiting =>
      match waiting with
      | [] => true
      | time :: _ =>
          if now < time then true
          else
            let found := takers (List.range turn.empty.length) rx turn
            decide (found.count ≤ waiting.length) &&
              (decide (found.count = 0) ||
                enough now rounds found.rx found.turn (waiting.drop found.count))

def hasEnough (pass : Pass) (g : ConsumerGroup) : Bool :=
  enough pass.now g.messages.length pass.rx g.turn (g.messages.map fun msg => msg.visibleAt)

theorem turn_length (g : ConsumerGroup) : g.turn.empty.length = g.members.length := length_map _

theorem take_turn (idx : Nat) (m : GroupMember) (rest : List GroupMessage) (s : Scan) :
    (s.take now idx m rest).group.turn =
      ⟨s.group.turn.empty.set idx false, (idx + 1) % s.group.turn.empty.length⟩ := by
  simp only [Scan.take, handOver, turn, map_set, length_map]
  rfl

/-- How a scan ends, by the takers it finds. -/
inductive ScanEnds (now : Time) (js : List Nat) (s : Scan) (found : Takers) : Prop where
  | returns {s' : Scan} : scan now js s = .ok s' → found.count ≤ s.group.messages.length →
      s'.group.turn = found.turn → s'.rx = found.rx →
      s'.group.messages = s.group.messages.drop found.count →
      s'.delivered = (s.delivered || decide (0 < found.count)) → ScanEnds now js s found
  | panics {panic : Panic} : scan now js s = .error panic →
      s.group.messages.length < found.count → ScanEnds now js s found

theorem accept_take {idx : Nat} {m : GroupMember} {head : GroupMessage} {rest : List GroupMessage}
    {s : Scan} (h : s.group.messages = head :: rest) :
    accept now idx m s = .ok (s.take now idx m rest) := by
  rw [accept, h]

theorem ScanEnds.take {j : Nat} {js : List Nat} {s : Scan} {m : GroupMember} {found : Takers}
    {idx : Nat} {head : GroupMessage} {rest : List GroupMessage}
    (hmessages : s.group.messages = head :: rest)
    (hscan : scan now (j :: js) s = scan now js (Scan.take now idx m rest { s with rx := s.rx.tail }))
    (h : ScanEnds now js (Scan.take now idx m rest { s with rx := s.rx.tail }) found) :
    ScanEnds now (j :: js) s ⟨found.count + 1, found.rx, found.turn⟩ := by
  cases h with
  | returns hok hle hturn hrx hleft hdelivered =>
    refine .returns (hscan.trans hok) ?_ hturn hrx ?_ ?_
    · rw [hmessages]
      exact Nat.succ_le_succ hle
    · rw [hmessages]
      exact hleft
    · rw [hdelivered]
      simp [Scan.take]
  | panics hpanic hlt =>
    refine .panics (hscan.trans hpanic) ?_
    rw [hmessages]
    exact Nat.succ_lt_succ hlt

theorem scan_ends (js : List Nat) {s : Scan} (hmembers : 0 < s.group.members.length) :
    ScanEnds now js s (takers js s.rx s.group.turn) := by
  -- by induction on the offsets still to try, as in the scan itself
  induction js generalizing s with
  | nil => exact .returns rfl (Nat.zero_le _) rfl rfl rfl (by simp [takers])
  | cons j js ih =>
    have hidx : (s.group.nextIdx + j) % s.group.members.length < s.group.members.length :=
      Nat.mod_lt _ hmembers
    have ⟨m, hmember⟩ : ∃ m, s.group.members[(s.group.nextIdx + j) % s.group.members.length]? = some m :=
      ⟨_, getElem?_eq_getElem hidx⟩
    have hnext : s.group.turn.nextIdx = s.group.nextIdx := rfl
    have hempty : s.group.turn.empty.getD ((s.group.nextIdx + j) % s.group.members.length) false =
        m.buffer.isNone := by
      simp [turn, List.getD, hmember]
    rw [takers]
    simp only [turn_length, hnext, hempty]
    by_cases hready : (s.rx.headD false || m.buffer.isNone) = true
    · rw [if_pos hready]
      have hscan : scan now (j :: js) s = accept now ((s.group.nextIdx + j) % s.group.members.length) m
          { s with rx := s.rx.tail } >>= scan now js := by
        simp only [scan, hmember]
        exact if_pos hready
      cases hmessages : s.group.messages with
      | nil =>
        have hpanic : scan now (j :: js) s = .error .sliceBounds := by
          rw [hscan, accept]
          simp only [hmessages]
          rfl
        exact .panics hpanic (by rw [hmessages]; exact Nat.succ_pos _)
      | cons head rest =>
        rw [accept_take (s := { s with rx := s.rx.tail }) hmessages] at hscan
        have hrest := ih (s := Scan.take now ((s.group.nextIdx + j) % s.group.members.length) m rest
          { s with rx := s.rx.tail }) (by simpa [Scan.take] using hmembers)
        rw [take_turn, turn_length] at hrest
        exact .take hmessages hscan hrest
    · rw [if_neg hready]
      have hscan : scan now (j :: js) s = scan now js { s with rx := s.rx.tail } := by
        simp only [scan, hmember]
        exact if_neg hready
      cases ih (s := { s with rx := s.rx.tail }) hmembers with
      | returns hok hle hturn hrx hleft hdelivered =>
        exact .returns (hscan.trans hok) hle hturn hrx hleft hdelivered
      | panics hpanic hlt => exact .panics (hscan.trans hpanic) hlt

theorem scan_range_ends (now : Time) (s : Scan) : ScanEnds now (List.range s.group.members.length) s
    (takers (List.range s.group.members.length) s.rx s.group.turn) := by
  cases hmembers : s.group.members.length with
  | zero => exact .returns rfl (Nat.zero_le _) rfl rfl rfl (by simp [takers])
  | succ n => exact scan_ends _ (hmembers ▸ Nat.succ_pos n)

theorem deliverLoop_ok_iff (rounds : Nat) (rx : List Bool) (g : ConsumerGroup) :
    (∃ g', deliverLoop now rounds rx g = .ok g') ↔
      enough now rounds rx g.turn (g.messages.map fun msg => msg.visibleAt) = true := by
  induction rounds generalizing rx g with
  | zero => exact iff_of_true ⟨g, rfl⟩ rfl
  | succ rounds ih =>
    cases hmessages : g.messages with
    | nil =>
      rw [deliverLoop, hmessages]
      exact iff_of_true ⟨g, rfl⟩ rfl
    | cons msg rest =>
      rw [deliverLoop, hmessages, map_cons, enough]
      dsimp only
      by_cases hearly : now < msg.visibleAt
      · rw [if_pos hearly, if_pos hearly]
        exact iff_of_true ⟨g, rfl⟩ rfl
      · rw [if_neg hearly, if_neg hearly, turn_length,
          ← map_cons (f := fun msg : GroupMessage => msg.visibleAt), ← hmessages, length_map, ← map_drop]
        cases scan_range_ends now ⟨g, msg, false, rx⟩ with
        | panics hpanic hlt =>
          refine iff_of_false ?_ ?_
          · rintro ⟨g', h⟩
            rw [hpanic] at h
            cases h
          · simp only [Bool.and_eq_true, decide_eq_true_eq]
            exact fun h => absurd h.1 (Nat.not_le_of_lt hlt)
        | @returns s' hok hle hturn hrx hleft hdelivered =>
          dsimp only at hle hdelivered
          rw [hok, ← hturn, ← hrx, ← hleft, decide_eq_true hle, Bool.true_and, Bool.or_eq_true,
            decide_eq_true_eq, ← ih]
          change (∃ g', (if s'.delivered then deliverLoop now rounds s'.rx s'.group
            else .ok s'.group) = .ok g') ↔ _
          rw [hdelivered]
          rcases Nat.eq_zero_or_pos (takers (List.range g.members.length) rx g.turn).count
            with hnone | hsome
          · simp [hnone]
          · simp [hsome, Nat.ne_of_gt hsome]

theorem deliverLoop_unmanned (h : g.members = []) (rounds : Nat) (rx : List Bool) :
    deliverLoop now rounds rx g = .ok g := by
  cases rounds with
  | zero => rfl
  | succ rounds =>
    cases hmessages : g.messages with
    | nil => simp [deliverLoop, hmessages]
    | cons msg rest =>
      simp only [deliverLoop, hmessages, h, length_nil, range_zero, scan]
      exact if_congr Iff.rfl rfl rfl |>.trans (ite_self _)

/-- A group's delivery pass panics exactly when one of its scans finds more takers than
messages. -/
theorem tryDeliver_ok_iff (pass : Pass) (g : ConsumerGroup) :
    (∃ g', g.tryDeliver pass = .ok g') ↔ g.hasEnough pass = true := by
  rw [hasEnough, ← deliverLoop_ok_iff, tryDeliver]
  split
  case isTrue h =>
    rcases Bool.or_eq_true _ _ |>.mp h with hmembers | hmessages
    · exact iff_of_true ⟨g, rfl⟩ ⟨g, deliverLoop_unmanned (isEmpty_iff.mp hmembers) _ _⟩
    · rw [isEmpty_iff.mp hmessages]
      exact iff_of_true ⟨g, rfl⟩ ⟨g, rfl⟩
  case isFalse => rfl

/-- The pass that follows an enqueue does not panic. A copy is visible from time zero on,
whatever the message. -/
def admits (pass : Pass) (g : ConsumerGroup) : Bool :=
  enough pass.now (g.messages.length + 1) pass.rx g.turn (g.messages.map (fun msg => msg.visibleAt) ++ [0])

theorem enqueue_ok_iff (msg : Message) (pass : Pass) (g : ConsumerGroup) :
    (∃ g', g.enqueue msg pass = .ok g') ↔ g.admits pass = true := by
  rw [enqueue, tryDeliver_ok_iff, hasEnough, length_append, map_append]
  rfl

end QwerQ.ConsumerGroup
