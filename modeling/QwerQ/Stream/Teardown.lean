import QwerQ.Library.Channel
import QwerQ.Stream.Delivery

/-! A stream consumer that leaves while the loop of `deliverFromStorage` may still run for it.
`RemoveConsumer` closes two channels, and the loop selects over both without the stream's
lock. One consumer is followed here; the others have channels of their own. -/
namespace QwerQ

/-- Where the loop stands: before its poll of the stop channel, before the locked section,
before the load, before the select over the first message that is left, blocked in that
select, between a send and the move of the offset, and at the end. -/
inductive StreamLoop where
  | polling
  | checking
  | loading (currentOffset : UInt64)
  | selecting (msgs : List StreamRecord)
  | parked (smsg : StreamRecord) (rest : List StreamRecord)
  | moving (sequence : UInt64) (rest : List StreamRecord)
  | returned
  deriving DecidableEq

/-- The consumer with its loop. `linked` says that it is in the stream's list, and `removing`
that `RemoveConsumer` holds the lock between its two closes. -/
structure StreamTeardown where
  name : String
  nextSeq : UInt64
  disk : Disk
  sc : StreamConsumer
  closed : Bool
  stopped : Bool
  linked : Bool
  removing : Bool
  loop : StreamLoop

namespace StreamTeardown

def outgoing (smsg : StreamRecord) : Message := { smsg.msg with sequence := smsg.seq }

def channel (s : StreamTeardown) : Channel Message := ⟨streamBuffer, s.sc.buffer, s.closed⟩

def started (name : String) (nextSeq : UInt64) (disk : Disk) (sc : StreamConsumer) : StreamTeardown :=
  ⟨name, nextSeq, disk, sc, false, false, true, false, .polling⟩

inductive Move where
  | publish (msg : Message)
  | loop (sends : Bool)
  | receive
  | stop
  | unlink
  deriving DecidableEq

def publish (msg : Message) (s : StreamTeardown) : Except Channel.Fault StreamTeardown :=
  let msg := { msg with sequence := s.nextSeq }
  match s.disk.write (Storage.saveStreamMessage s.name s.nextSeq msg) with
  | (some _, disk) => .ok { s with disk := disk }
  | (none, disk) =>
      let s' := { s with disk := disk, nextSeq := s.nextSeq + 1 }
      if s.linked ∧ s.sc.offset = s.nextSeq ∧ s.channel.ready then
        match s.channel.send msg with
        | .error fault => .error fault
        | .ok ch => .ok { s' with sc := { s.sc with buffer := ch.buffer, offset := s.nextSeq + 1 } }
      else .ok s'

/-- The select over the send and the stop channel, which chooses among the cases that are
ready. Nothing if it cannot choose as it is told. -/
def select (smsg : StreamRecord) (rest : List StreamRecord) (sends : Bool) (s : StreamTeardown) :
    Except Channel.Fault (Option StreamTeardown) :=
  if ¬s.channel.ready ∧ s.stopped = false then .ok (some { s with loop := .parked smsg rest })
  else if sends then
    if s.channel.ready then
      match s.channel.send (outgoing smsg) with
      | .error fault => .error fault
      | .ok ch => .ok (some { s with
          sc := { s.sc with buffer := ch.buffer }
          loop := .moving smsg.seq rest })
    else .ok none
  else if s.stopped then .ok (some { s with loop := .returned })
  else .ok none

def step (sends : Bool) (s : StreamTeardown) : Except Channel.Fault (Option StreamTeardown) :=
  match s.loop with
  | .polling => .ok (some { s with loop := if s.stopped then .returned else .checking })
  | .checking =>
      if s.removing then .ok none
      else .ok (some { s with
        loop := if s.nextSeq ≤ s.sc.offset ∨ s.disk.present = false then .returned
          else .loading s.sc.offset })
  | .loading currentOffset =>
      match s.disk.read (Storage.loadStreamMessages s.name currentOffset StreamQueue.deliveryBatch) with
      | (.ok (first :: rest), disk) => .ok (some { s with disk := disk, loop := .selecting (first :: rest) })
      | (_, disk) => .ok (some { s with disk := disk, loop := .returned })
  | .selecting [] => .ok (some { s with loop := .polling })
  | .selecting (smsg :: rest) => s.select smsg rest sends
  | .moving sequence rest =>
      if s.removing then .ok none
      else .ok (some { s with sc := { s.sc with offset := sequence + 1 }, loop := .selecting rest })
  | .parked _ _ => .ok none
  | .returned => .ok none

/-- A client takes a message. A loop that is blocked then sends its own. -/
def receive (s : StreamTeardown) : Option StreamTeardown :=
  match s.sc.buffer, s.loop with
  | [], _ => none
  | _ :: left, .parked smsg rest => some { s with
      sc := { s.sc with buffer := left ++ [outgoing smsg] }
      loop := .moving smsg.seq rest }
  | _ :: left, _ => some { s with sc := { s.sc with buffer := left } }

/-- A step of a publisher, of the loop, of the client or of `RemoveConsumer`, which closes the
stop channel first. That wakes a loop that is blocked, which then returns; the close of a
channel on which a loop is blocked would make its send fail. -/
def move (s : StreamTeardown) : Move → Except Channel.Fault (Option StreamTeardown)
  | .publish msg => if s.removing then .ok none else (s.publish msg).map some
  | .loop sends => s.step sends
  | .receive => .ok s.receive
  | .stop =>
      if s.removing ∨ s.linked = false then .ok none
      else if s.stopped then .error .closeOfClosed
      else .ok (some { s with
        stopped := true
        removing := true
        loop := match s.loop with
          | .parked _ _ => .returned
          | loop => loop })
  | .unlink =>
      if s.removing then
        match s.channel.close, s.loop with
        | .error fault, _ => .error fault
        | .ok _, .parked _ _ => .error .sendOnClosed
        | .ok ch, _ => .ok (some { s with closed := ch.closed, linked := false, removing := false })
      else .ok none

def Step (guard : StreamTeardown → Move → Prop) (_ : List Move) (s : StreamTeardown)
    (moves : List Move) (s' : StreamTeardown) : Prop :=
  ∃ move, guard s move ∧ s.move move = .ok (some s') ∧ moves = [move]

abbrev Runs (guard : StreamTeardown → Move → Prop) := Run (Step guard)

variable {s s' : StreamTeardown}

/-- Where the loop can go on its own, or when a receive lets it send. -/
inductive Goes (s : StreamTeardown) : StreamLoop → StreamLoop → Prop where
  | returns {loop : StreamLoop} : Goes s loop .returned
  | checks : s.stopped = false → Goes s .polling .checking
  | loads {currentOffset : UInt64} : Goes s .checking (.loading currentOffset)
  | loaded {currentOffset : UInt64} {msgs : List StreamRecord} :
      Goes s (.loading currentOffset) (.selecting msgs)
  | polls : Goes s (.selecting []) .polling
  | parks {smsg : StreamRecord} {rest : List StreamRecord} : s.stopped = false →
      Goes s (.selecting (smsg :: rest)) (.parked smsg rest)
  | sends {smsg : StreamRecord} {rest : List StreamRecord} :
      Goes s (.selecting (smsg :: rest)) (.moving smsg.seq rest)
  | unparks {smsg : StreamRecord} {rest : List StreamRecord} :
      Goes s (.parked smsg rest) (.moving smsg.seq rest)
  | moves {sequence : UInt64} {rest : List StreamRecord} :
      Goes s (.moving sequence rest) (.selecting rest)

structure SameFlags (s s' : StreamTeardown) : Prop where
  closed : s'.closed = s.closed
  stopped : s'.stopped = s.stopped
  linked : s'.linked = s.linked
  removing : s'.removing = s.removing

inductive Moved (s s' : StreamTeardown) : Move → Prop where
  | kept {move : Move} (hflags : SameFlags s s') (hloop : s'.loop = s.loop) : Moved s s' move
  | went {move : Move} (hflags : SameFlags s s') (hloop : Goes s s.loop s'.loop) : Moved s s' move
  | stopped (hremoving : s.removing = false) (hlinked : s.linked = true)
      (hstate : s' = { s with
        stopped := true
        removing := true
        loop := match s.loop with
          | .parked _ _ => .returned
          | loop => loop }) : Moved s s' .stop
  | unlinked (hremoving : s.removing = true)
      (hstate : s' = { s with closed := true, linked := false, removing := false }) :
      Moved s s' .unlink

variable {rest : List StreamRecord} {fault : Channel.Fault} {smsg : StreamRecord} {sends : Bool}
  {msg : Message}

theorem publish_kept (h : s.publish msg = .ok s') :
    SameFlags s s' ∧ s'.loop = s.loop := by
  simp only [publish] at h
  split at h
  · cases h
    exact ⟨⟨rfl, rfl, rfl, rfl⟩, rfl⟩
  · split at h
    · split at h <;> cases h
      exact ⟨⟨rfl, rfl, rfl, rfl⟩, rfl⟩
    · cases h
      exact ⟨⟨rfl, rfl, rfl, rfl⟩, rfl⟩

theorem select_goes
    (h : s.select smsg rest sends = .ok (some s')) :
    SameFlags s s' ∧ Goes s (.selecting (smsg :: rest)) s'.loop := by
  unfold select at h
  split_ifs at h with hblocked hsends hready hstopped
  · cases h
    exact ⟨⟨rfl, rfl, rfl, rfl⟩, .parks hblocked.2⟩
  · split at h <;> cases h
    exact ⟨⟨rfl, rfl, rfl, rfl⟩, .sends⟩
  · cases h
  · cases h
    exact ⟨⟨rfl, rfl, rfl, rfl⟩, .returns⟩
  · cases h

theorem step_goes (h : s.step sends = .ok (some s')) :
    SameFlags s s' ∧ Goes s s.loop s'.loop := by
  unfold step at h
  split at h
  · rename_i hloop
    cases h
    refine ⟨⟨rfl, rfl, rfl, rfl⟩, ?_⟩
    rw [hloop]
    cases hstopped : s.stopped with
    | true => exact .returns
    | false => exact .checks hstopped
  · rename_i hloop
    split at h <;> cases h
    refine ⟨⟨rfl, rfl, rfl, rfl⟩, ?_⟩
    rw [hloop]
    dsimp only
    split
    · exact .returns
    · exact .loads
  · rename_i hloop
    split at h <;> cases h
    · exact ⟨⟨rfl, rfl, rfl, rfl⟩, hloop ▸ .loaded⟩
    · exact ⟨⟨rfl, rfl, rfl, rfl⟩, .returns⟩
  · rename_i hloop
    cases h
    exact ⟨⟨rfl, rfl, rfl, rfl⟩, hloop ▸ .polls⟩
  · rename_i hloop
    rw [hloop]
    exact select_goes h
  · rename_i hloop
    split at h <;> cases h
    exact ⟨⟨rfl, rfl, rfl, rfl⟩, hloop ▸ .moves⟩
  · cases h
  · cases h

theorem receive_goes (h : s.receive = some s') :
    SameFlags s s' ∧ (s'.loop = s.loop ∨ Goes s s.loop s'.loop) := by
  unfold receive at h
  split at h
  · cases h
  · rename_i hloop
    cases h
    exact ⟨⟨rfl, rfl, rfl, rfl⟩, .inr (hloop ▸ .unparks)⟩
  · cases h
    exact ⟨⟨rfl, rfl, rfl, rfl⟩, .inl rfl⟩

theorem moved_of_move {move : Move} (h : s.move move = .ok (some s')) : Moved s s' move := by
  cases move with
  | publish msg =>
    simp only [StreamTeardown.move] at h
    split at h
    · cases h
    · cases hpublish : s.publish msg with
      | error fault =>
        rw [hpublish] at h
        cases h
      | ok after =>
        rw [hpublish] at h
        cases h
        have ⟨hflags, hloop⟩ := publish_kept hpublish
        exact .kept hflags hloop
  | loop sends =>
    have ⟨hflags, hgoes⟩ := step_goes h
    exact .went hflags hgoes
  | receive =>
    have ⟨hflags, hgoes⟩ := receive_goes (Except.ok.inj h)
    obtain hloop | hgoes := hgoes
    · exact .kept hflags hloop
    · exact .went hflags hgoes
  | stop =>
    simp only [StreamTeardown.move] at h
    split_ifs at h with hidle hstopped
    · cases h
    · cases h
      rw [not_or, Bool.not_eq_true, Bool.not_eq_false] at hidle
      exact .stopped hidle.1 hidle.2 rfl
  | unlink =>
    simp only [StreamTeardown.move] at h
    split_ifs at h with hremoving
    · split at h
      · cases h
      · cases h
      · rename_i hclose _
        cases h
        obtain ⟨-, rfl⟩ := Channel.close_eq_ok hclose
        exact .unlinked hremoving rfl
    · cases h

end StreamTeardown

/-- The position as long as the consumer stays, where the poll finds nothing and a loop that
is blocked stands before its send. -/
def StreamLoop.delivery : StreamLoop → StreamDelivery
  | .polling | .checking => .checking
  | .loading currentOffset => .loading currentOffset
  | .selecting msgs => .sending msgs
  | .parked smsg rest => .sending (smsg :: rest)
  | .moving sequence rest => .moving sequence rest
  | .returned => .returned

namespace StreamTeardown
variable {s s' : StreamTeardown}

def queue (s : StreamTeardown) : StreamQueue := ⟨s.name, s.nextSeq, [s.sc], 0, 0, s.sc.ch + 1⟩

def view (s : StreamTeardown) : StreamDelivery × StreamConsumer × Disk := (s.loop.delivery, s.sc, s.disk)

variable {rest : List StreamRecord} {sends : Bool} {smsg : StreamRecord} {fault : Channel.Fault}
  {msg : Message}

theorem select_delivers
    (hstopped : s.stopped = false) (hclosed : s.closed = false)
    (h : s.select smsg rest sends = .ok (some s')) :
    s'.view = s.queue.deliverFromStorage s.disk s.sc (.sending (smsg :: rest)) := by
  have hready : s.channel.ready = decide (s.sc.buffer.length < streamBuffer) :=
    Channel.ready_of_open (show s.channel.closed = false from hclosed)
  have hsend : s.channel.send (outgoing smsg) =
      .ok { s.channel with buffer := s.sc.buffer ++ [outgoing smsg] } :=
    Channel.send_of_open (show s.channel.closed = false from hclosed) _
  unfold select at h
  rw [hready, hsend, hstopped] at h
  by_cases hroom : s.sc.buffer.length < streamBuffer
  · simp only [hroom, decide_true, not_true_eq_false, false_and, if_false, if_true] at h
    cases sends with
    | false => cases h
    | true =>
      cases h
      simp only [view, StreamLoop.delivery, StreamQueue.deliverFromStorage, if_pos hroom]
      rfl
  · simp only [hroom, decide_false] at h
    cases h
    simp only [view, StreamLoop.delivery, StreamQueue.deliverFromStorage, if_neg hroom]

/-- The loop takes the steps that it takes where no consumer leaves. -/
theorem step_delivers {sends : Bool} (hstopped : s.stopped = false) (hclosed : s.closed = false)
    (h : s.step sends = .ok (some s')) :
    s'.view = s.queue.deliverFromStorage s.disk s.sc s.loop.delivery ∨ s'.view = s.view := by
  unfold step at h
  split at h
  case h_1 hloop =>
    right
    cases h
    simp [view, hloop, hstopped, StreamLoop.delivery]
  case h_2 hloop =>
    left
    split at h <;> cases h
    simp only [view, hloop, StreamLoop.delivery, StreamQueue.deliverFromStorage, queue]
    by_cases hend : s.nextSeq ≤ s.sc.offset ∨ s.disk.present = false
    · simp [hend]
    · simp [hend]
  case h_3 currentOffset hloop =>
    left
    simp only [hloop, StreamLoop.delivery, StreamQueue.deliverFromStorage, queue]
    generalize s.disk.read (Storage.loadStreamMessages s.name currentOffset _) = read at h ⊢
    obtain ⟨_ | (_ | _), _⟩ := read
    all_goals
      cases h
      rfl
  case h_4 hloop =>
    left
    cases h
    simp only [view, hloop, StreamLoop.delivery, StreamQueue.deliverFromStorage]
  case h_5 smsg rest hloop =>
    left
    rw [hloop]
    exact select_delivers hstopped hclosed h
  case h_6 sequence rest hloop =>
    left
    split at h <;> cases h
    simp only [view, hloop, StreamLoop.delivery, StreamQueue.deliverFromStorage]
  case h_7 => cases h
  case h_8 => cases h

theorem publish_notifies (hlinked : s.linked = true) (hclosed : s.closed = false) (msg : Message)
    (hfails : ¬s.disk.fails 0) : s.publish msg = .ok { s with
      disk := s.disk.wrote (Storage.saveStreamMessage s.name s.nextSeq { msg with sequence := s.nextSeq })
      nextSeq := s.nextSeq + 1
      sc := s.sc.notify { msg with sequence := s.nextSeq } } := by
  have hready : s.channel.ready = decide (s.sc.buffer.length < streamBuffer) :=
    Channel.ready_of_open (show s.channel.closed = false from hclosed)
  have hsend := Channel.send_of_open (show s.channel.closed = false from hclosed)
    { msg with sequence := s.nextSeq }
  simp only [publish, Disk.write_of_not_fails _ hfails, hlinked, hready, hsend, true_and,
    StreamConsumer.notify, decide_eq_true_eq]
  split <;> rfl

/-- What the lock and the order of the closes keep. -/
structure Ordered (s : StreamTeardown) : Prop where
  linked : s.linked = true → s.closed = false
  removing : s.removing = true → s.stopped = true
  parked : ∀ smsg rest, s.loop = .parked smsg rest → s.stopped = false
  closed : s.closed = true → s.stopped = true

theorem ordered_started (name : String) (nextSeq : UInt64) (disk : Disk) (sc : StreamConsumer) :
    Ordered (started name nextSeq disk sc) :=
  ⟨fun _ => rfl, nofun, nofun, nofun⟩

theorem Ordered.moved {move : Move} (h : Ordered s) (hmoved : Moved s s' move) : Ordered s' := by
  cases hmoved with
  | kept hflags hloop =>
    refine ⟨?_, ?_, ?_, ?_⟩
    · rw [hflags.linked, hflags.closed]
      exact h.linked
    · rw [hflags.removing, hflags.stopped]
      exact h.removing
    · rw [hloop, hflags.stopped]
      exact h.parked
    · rw [hflags.closed, hflags.stopped]
      exact h.closed
  | went hflags hgoes =>
    refine ⟨?_, ?_, ?_, ?_⟩
    · rw [hflags.linked, hflags.closed]
      exact h.linked
    · rw [hflags.removing, hflags.stopped]
      exact h.removing
    · intro smsg rest hparked
      rw [hparked] at hgoes
      rw [hflags.stopped]
      generalize s.loop = loop at hgoes
      cases hgoes with
      | parks hrunning => exact hrunning
    · rw [hflags.closed, hflags.stopped]
      exact h.closed
  | stopped hremoving hlinked hstate =>
    subst hstate
    refine ⟨h.linked, fun _ => rfl, ?_, fun _ => rfl⟩
    intro smsg rest hparked
    dsimp only at hparked
    split at hparked
    · cases hparked
    · rename_i hnot
      exact absurd hparked (hnot smsg rest)
  | unlinked hremoving hstate =>
    subst hstate
    exact ⟨nofun, nofun, h.parked, fun _ => h.removing hremoving⟩

/-- The loop stands before its select with a message, and the channel is closed. -/
def Exposed (s : StreamTeardown) : Prop := s.closed = true ∧ ∃ smsg rest, s.loop = .selecting (smsg :: rest)

theorem publish_fault (h : s.publish msg = .error fault) :
    s.linked = true ∧ s.closed = true := by
  simp only [publish] at h
  split at h
  · cases h
  · split at h
    · rename_i hnotified
      split at h <;> cases h
      rename_i hsend
      exact ⟨hnotified.1, Channel.closed_of_send_error hsend⟩
    · cases h

theorem step_fault (h : s.step sends = .error fault) :
    s.Exposed := by
  unfold step at h
  split at h
  case h_5 smsg rest hloop =>
    unfold select at h
    split_ifs at h
    split at h <;> cases h
    rename_i hsend
    exact ⟨Channel.closed_of_send_error hsend, smsg, rest, hloop⟩
  all_goals first | cases h | (split at h <;> cases h)

/-- A step can fail in one way: the loop stands before its select with a message, and the
channel has been closed. -/
theorem Ordered.safe_iff (h : Ordered s) :
    (∀ move, s.move move ≠ .error .sendOnClosed) ↔ ¬s.Exposed := by
  constructor
  · rintro hsafe ⟨hclosed, smsg, rest, hloop⟩
    refine hsafe (.loop true) ?_
    have hready : s.channel.ready = true := by simp [Channel.ready, channel, hclosed]
    have hsend : s.channel.send (outgoing smsg) = .error .sendOnClosed := by
      simp [Channel.send, channel, hclosed]
    simp only [StreamTeardown.move, step, hloop, select, hready, hsend]
    simp
  · intro hnot move hfault
    cases move with
    | publish msg =>
      simp only [StreamTeardown.move] at hfault
      split at hfault
      · cases hfault
      · cases hpublish : s.publish msg with
        | error fault =>
          obtain ⟨hlinked, hclosed⟩ := publish_fault hpublish
          rw [h.linked hlinked] at hclosed
          cases hclosed
        | ok after =>
          rw [hpublish] at hfault
          cases hfault
    | loop sends => exact hnot (step_fault hfault)
    | receive => cases hfault
    | stop =>
      simp only [StreamTeardown.move] at hfault
      split_ifs at hfault
      cases hfault
    | unlink =>
      simp only [StreamTeardown.move] at hfault
      split_ifs at hfault with hremoving
      split at hfault
      · rename_i hclose
        cases hfault
        cases Channel.close_eq_error hclose
      · rename_i smsg rest _ hparked
        have hstopped := h.removing hremoving
        rw [h.parked smsg rest hparked] at hstopped
        cases hstopped
      · cases hfault

end StreamTeardown

/-- The loop has no message in hand, and takes none before its next poll. -/
def StreamLoop.drained : StreamLoop → Bool
  | .polling | .returned | .selecting [] | .moving _ [] => true
  | _ => false

/-- The loop is drained, or blocked in its select. -/
def StreamLoop.calm : StreamLoop → Bool
  | .parked _ _ => true
  | loop => loop.drained

namespace StreamTeardown
variable {s s' : StreamTeardown}

def leavesCalmly (s : StreamTeardown) (move : Move) : Prop := move = .stop → s.loop.calm = true

theorem Goes.drained {before after : StreamLoop} (h : Goes s before after) (hstopped : s.stopped = true)
    (hdrained : before.drained = true) : after.drained = true := by
  cases h with
  | returns => rfl
  | checks hrunning =>
    rw [hrunning] at hstopped
    cases hstopped
  | loads | loaded | parks | sends | unparks => cases hdrained
  | polls => rfl
  | @moves sequence rest =>
    cases rest with
    | nil => rfl
    | cons smsg rest => cases hdrained

theorem drained_moved {move : Move} (h : s.stopped = true → s.loop.drained = true)
    (hcalm : leavesCalmly s move) (hmoved : Moved s s' move) :
    s'.stopped = true → s'.loop.drained = true := by
  cases hmoved with
  | kept hflags hloop =>
    rw [hflags.stopped, hloop]
    exact h
  | went hflags hgoes =>
    rw [hflags.stopped]
    exact fun hstopped => hgoes.drained hstopped (h hstopped)
  | stopped hremoving hlinked hstate =>
    subst hstate
    intro _
    have hposition := hcalm rfl
    dsimp only
    split
    · rfl
    · rename_i hnot
      unfold StreamLoop.calm at hposition
      split at hposition
      · rename_i hparked
        exact absurd hparked (hnot _ _)
      · exact hposition
  | unlinked hremoving hstate =>
    subst hstate
    exact h

section Runs
variable {name : String} {nextSeq : UInt64} {disk : Disk} {sc : StreamConsumer} {moves : List Move}
  {guard : StreamTeardown → Move → Prop}

theorem Runs.ordered (run : Runs guard (started name nextSeq disk sc) moves s) : Ordered s := by
  refine Run.invariant (fun _ s => Ordered s) (ordered_started name nextSeq disk sc) ?_ run
  rintro history before events after h ⟨move, -, hmove, -⟩
  exact h.moved (moved_of_move hmove)

theorem Runs.drained (run : Runs leavesCalmly (started name nextSeq disk sc) moves s) :
    s.stopped = true → s.loop.drained = true := by
  refine Run.invariant (fun _ s => s.stopped = true → s.loop.drained = true) (fun _ => rfl) ?_ run
  rintro history before events after h ⟨move, hcalm, hmove, -⟩
  exact drained_moved h hcalm (moved_of_move hmove)

/-- Whatever the order of the steps, a step sends on the closed channel exactly if the loop
stands before its select with a message when the channel is closed. If `RemoveConsumer` is
called only while the loop has no message in hand, none does. -/
theorem teardown_safe (name : String) (nextSeq : UInt64) (disk : Disk) (sc : StreamConsumer) :
    (∀ moves s, Runs (fun _ _ => True) (started name nextSeq disk sc) moves s →
      ((∀ move, s.move move ≠ .error .sendOnClosed) ↔ ¬s.Exposed)) ∧
      ∀ moves s, Runs leavesCalmly (started name nextSeq disk sc) moves s →
        ∀ move, s.move move ≠ .error .sendOnClosed := by
  refine ⟨fun moves s run => (Runs.ordered run).safe_iff, fun moves s run => ?_⟩
  have hordered := Runs.ordered run
  rw [hordered.safe_iff]
  rintro ⟨hclosed, smsg, rest, hloop⟩
  have hdrained := Runs.drained run (hordered.closed hclosed)
  rw [hloop] at hdrained
  cases hdrained

end Runs

def catchUpMessage : Message := ⟨"a", "events", [1], ∅, 0, 0, 0, "", 1⟩

def catchingUp : StreamTeardown :=
  started "events" 2 ⟨true, Storage.saveStreamMessage "events" 1 catchUpMessage Storage.empty, fun _ => none⟩
    ⟨0, "client", 1, []⟩

/-- The loop sends the message and polls again before the consumer leaves. -/
theorem teardown_safe_polling : ∃ moves s, Runs leavesCalmly catchingUp moves s ∧ s.closed = true ∧
    ∀ move, s.move move ≠ .error .sendOnClosed := by
  have sent : Runs leavesCalmly catchingUp _ _ :=
    (((((Run.start.next ⟨.loop true, nofun, rfl, rfl⟩).next ⟨.loop true, nofun, rfl, rfl⟩).next
      ⟨.loop true, nofun, rfl, rfl⟩).next ⟨.loop true, nofun, rfl, rfl⟩).next
      ⟨.loop true, nofun, rfl, rfl⟩).next ⟨.loop true, nofun, rfl, rfl⟩
  have run := (sent.next ⟨.stop, fun _ => rfl, rfl, rfl⟩).next ⟨.unlink, nofun, rfl, rfl⟩
  exact ⟨_, _, run, rfl, (teardown_safe _ _ _ _).2 _ _ run⟩

/-- The consumer leaves after the load and before the select. -/
theorem teardown_sends_on_closed : ∃ moves s, Runs (fun _ _ => True) catchingUp moves s ∧
    s.move (.loop true) = .error .sendOnClosed := by
  have loaded : Runs (fun _ _ => True) catchingUp _ _ :=
    ((Run.start.next ⟨.loop true, trivial, rfl, rfl⟩).next ⟨.loop true, trivial, rfl, rfl⟩).next
      ⟨.loop true, trivial, rfl, rfl⟩
  have run := (loaded.next ⟨.stop, trivial, rfl, rfl⟩).next ⟨.unlink, trivial, rfl, rfl⟩
  exact ⟨_, _, run, rfl⟩

end StreamTeardown

end QwerQ
