import Mathlib.Logic.Function.Basic
import QwerQ.Library.Run
import QwerQ.Protocol.Frame

/-! The frames that leave a connection. The loop of `handleConn` and the delivery goroutines
write under `writeMu`; a write puts its frame on the wire in any number of pieces, or fails.
At every moment the client has read whole frames, in an order that keeps each writer's own. -/
namespace QwerQ.Protocol
open List
variable {r rest more : Bytes} {frame : Frame} {maxMessageSize : UInt32}

theorem readFull_append {n : Nat} {data : Bytes} (h : readFull n r = (.ok data, rest)) (more : Bytes) :
    readFull n (r ++ more) = (.ok data, rest ++ more) := by
  have hle := (length_of_readFull h).2
  have hmore : n ≤ (r ++ more).length := by
    rw [length_append]
    omega
  rw [readFull, if_pos hle] at h
  cases h
  rw [readFull, if_pos hmore, take_append_of_le_length hle, drop_append_of_le_length hle]

theorem decodeFrame_append (h : decodeFrame maxMessageSize r = (.ok frame, rest)) (more : Bytes) :
    decodeFrame maxMessageSize (r ++ more) = (.ok frame, rest ++ more) := by
  obtain ⟨lengthBuf, r', data, hlength, hdata, hlarge, hsmall, hallowed, rfl⟩ := decodeFrame_ok h
  simp only [decodeFrame, readFull_append hlength, readFull_append hdata, UInt32.not_lt.mpr hlarge,
    UInt32.not_lt.mpr hsmall, UInt32.not_lt.mpr hallowed, if_false]

theorem decodeFrames_cut {frames : List (OpCode × Bytes)}
    (hfits : ∀ frame ∈ frames, Fits maxMessageSize frame.2) (h : r <+: wire frames) :
    (decodeFrames maxMessageSize r).1 <+: received frames := by
  induction frames generalizing r with
  | nil =>
    obtain rfl := prefix_nil.mp h
    have hend : decodeFrame maxMessageSize [] = (.error .eof, []) := rfl
    rw [decodeFrames_error hend]
    exact nil_prefix
  | cons first later ih =>
    cases hread : decodeFrame maxMessageSize r with
    | mk result rest =>
      cases result with
      | error err =>
        rw [decodeFrames_error hread]
        exact nil_prefix
      | ok frame =>
        obtain ⟨more, hmore⟩ := h
        have hfirst := decodeFrame_writeFrame first.1 (wire later) (hfits first mem_cons_self)
        have hwhole := decodeFrame_append hread more
        rw [hmore] at hwhole
        obtain ⟨hframe, hrest⟩ := Prod.mk.inj (hfirst.symm.trans hwhole)
        cases hframe
        rw [decodeFrames_ok hread]
        refine cons_prefix_cons.mpr ⟨rfl, ih (fun frame hmem => hfits frame (.tail _ hmem)) ?_⟩
        exact ⟨more, hrest.symm⟩

/-- `writing` is who holds `writeMu`, with what it has yet to write of its frame. -/
structure Outgoing (κ : Type) where
  sent : Bytes
  writing : Option (κ × Bytes)
  broken : Bool
  left : κ → List (OpCode × Bytes)

namespace Outgoing
variable {κ : Type} [DecidableEq κ]

def start (frames : κ → List (OpCode × Bytes)) : Outgoing κ := ⟨[], none, false, frames⟩

/-- The history is the list of frames whose write has begun. A write ends when it is done
or has failed; once the connection is broken nothing more is written. -/
inductive Step : List (κ × OpCode × Bytes) → Outgoing κ → List (κ × OpCode × Bytes) →
    Outgoing κ → Prop where
  | lock {history s frame rest} (writer : κ) : s.writing = none → s.left writer = frame :: rest →
      Step history s [(writer, frame)] { s with
        writing := some (writer, writeFrame frame.1 frame.2)
        left := Function.update s.left writer rest }
  | put {history s writer} (piece bytes : Bytes) : s.broken = false →
      s.writing = some (writer, piece ++ bytes) →
      Step history s [] { s with sent := s.sent ++ piece, writing := some (writer, bytes) }
  | fail {history s} : Step history s [] { s with broken := true }
  | unlock {history s writer bytes} : s.writing = some (writer, bytes) →
      bytes = [] ∨ s.broken = true → Step history s [] { s with writing := none }

abbrev Runs (frames : κ → List (OpCode × Bytes)) := Run Step (start frames)

variable {frames : κ → List (OpCode × Bytes)} {s s' : Outgoing κ}
  {history events : List (κ × OpCode × Bytes)}

def unwritten (s : Outgoing κ) : Bytes := (s.writing.map Prod.snd).getD []

def ownFrames (writer : κ) (history : List (κ × OpCode × Bytes)) : List (OpCode × Bytes) :=
  (history.filter fun event => event.1 = writer).map Prod.snd

/-- What is on the wire, against the frames begun so far and those yet to come. -/
structure Whole (frames : κ → List (OpCode × Bytes)) (history : List (κ × OpCode × Bytes))
    (s : Outgoing κ) : Prop where
  merged : ∀ writer, ownFrames writer history ++ s.left writer = frames writer
  ongoing : s.broken = false → s.sent ++ s.unwritten = wire (history.map Prod.snd)
  cut : s.sent <+: wire (history.map Prod.snd)

theorem wire_snoc (frames : List (OpCode × Bytes)) (frame : OpCode × Bytes) :
    wire (frames ++ [frame]) = wire frames ++ writeFrame frame.1 frame.2 := by
  simp [wire]

theorem Whole.step (h : Whole frames history s) (hstep : Step history s events s') :
    Whole frames (history ++ events) s' := by
  cases hstep with
  | @lock frame rest writer hfree hleft =>
    have hwire : wire ((history ++ [(writer, frame)]).map Prod.snd) =
        wire (history.map Prod.snd) ++ writeFrame frame.1 frame.2 := by
      rw [map_append, ← wire_snoc]
      rfl
    refine ⟨fun other => ?_, fun hwhole => ?_, ?_⟩
    · have hother := h.merged other
      by_cases heq : writer = other
      · subst heq
        rw [hleft] at hother
        simpa [ownFrames] using hother
      · simpa [ownFrames, heq, Function.update_of_ne (Ne.symm heq)] using hother
    · have hbefore := h.ongoing hwhole
      rw [unwritten, hfree, Option.map_none, Option.getD_none, append_nil] at hbefore
      rw [hwire, ← hbefore]
      rfl
    · rw [hwire]
      exact h.cut.trans (prefix_append _ _)
  | @put writer piece bytes hwhole hwriting =>
    have hongoing := h.ongoing hwhole
    rw [unwritten, hwriting, Option.map_some, Option.getD_some, ← append_assoc] at hongoing
    rw [append_nil]
    exact ⟨h.merged, fun _ => hongoing, ⟨bytes, hongoing⟩⟩
  | fail =>
    rw [append_nil]
    exact ⟨h.merged, by rintro ⟨⟩, h.cut⟩
  | @unlock writer bytes hwriting hdone =>
    rw [append_nil]
    refine ⟨h.merged, fun hwhole => ?_, h.cut⟩
    have hongoing := h.ongoing hwhole
    rcases hdone with rfl | hbroken
    · rwa [unwritten, hwriting] at hongoing
    · cases hwhole.symm.trans hbroken

theorem Runs.whole (run : Runs frames history s) : Whole frames history s :=
  run.invariant (Whole frames) ⟨fun _ => rfl, fun _ => rfl, nil_prefix⟩ fun h hstep => h.step hstep

/-- What the client has read are the first of the frames begun, each of them whole and each
writer's in its own order; between two writes it has read all of them. -/
theorem writes_whole (hfits : ∀ writer, ∀ frame ∈ frames writer, Fits maxMessageSize frame.2)
    (run : Runs frames history s) :
    (∀ writer, ownFrames writer history ++ s.left writer = frames writer) ∧
      (decodeFrames maxMessageSize s.sent).1 <+: received (history.map Prod.snd) ∧
      (s.broken = false → s.writing = none →
        decodeFrames maxMessageSize s.sent = (received (history.map Prod.snd), .eof)) := by
  have hwhole := run.whole
  have hbegun : ∀ frame ∈ history.map Prod.snd, Fits maxMessageSize frame.2 := by
    intro frame hmem
    obtain ⟨⟨writer, _⟩, hevent, rfl⟩ := mem_map.mp hmem
    refine hfits writer _ ?_
    rw [← hwhole.merged writer]
    exact mem_append_left _ (mem_map.mpr ⟨_, mem_filter.mpr ⟨hevent, decide_eq_true rfl⟩, rfl⟩)
  refine ⟨hwhole.merged, decodeFrames_cut hbegun hwhole.cut, fun hbroken hfree => ?_⟩
  have hongoing := hwhole.ongoing hbroken
  rw [unwritten, hfree, Option.map_none, Option.getD_none, append_nil] at hongoing
  rw [hongoing]
  exact decodeFrames_wire hbegun

def replyAndDelivery (writer : Bool) : List (OpCode × Bytes) := [(if writer then 0x81 else 0x82, [7])]

/-- A delivery waits while a reply is written in two pieces. -/
theorem writes_whole_pieces : ∃ history s, Runs replyAndDelivery history s ∧ s.left false = [] ∧
    decodeFrames 10 s.sent = (received [(0x81, [7]), (0x82, [7])], .eof) := by
  have run := (((((((@Run.start _ _ Step (start replyAndDelivery)).next (.lock true rfl rfl)).next
    (.put [0, 0, 0] [3, 1, 0x81, 7] rfl rfl)).next (.put [3, 1, 0x81, 7] [] rfl rfl)).next
    (.unlock rfl (.inl rfl))).next (.lock false rfl rfl)).next
    (.put [0, 0, 0, 3, 1, 0x82, 7] [] rfl rfl)).next (.unlock rfl (.inl rfl))
  have hfits (writer : Bool) : ∀ frame ∈ replyAndDelivery writer, Fits 10 frame.2 := by
    intro frame hmem
    rw [mem_singleton.mp hmem]
    exact (⟨by decide, by decide⟩ : Fits 10 [7])
  exact ⟨_, _, run, rfl, (writes_whole hfits run).2.2 rfl rfl⟩

end QwerQ.Protocol.Outgoing
