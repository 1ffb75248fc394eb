import QwerQ.Protocol.Frame
import QwerQ.Library.Incremental

/-! Frames as the TypeScript client writes and reads them. Its decoder keeps what the
socket has delivered until a frame is complete. -/
namespace QwerQ.TypeScript
open List
open Protocol (Bytes OpCode Frame putUint32 uint32 writeFrame wire received)

def protocolVersion : UInt8 := 1

def maxFrameSize : Nat := 16 * 1024 * 1024

/-- What is thrown; `outOfRange` is the `RangeError` of `writeUInt32BE`. -/
inductive FrameError where
  | outOfRange
  | tooLarge (length : Nat)
  | tooSmall
  deriving DecidableEq, Repr

def FrameError.message : FrameError → String
  | .outOfRange => "The value of \"value\" is out of range."
  | .tooLarge length =>
      "Frame too large: " ++ toString length ++ " bytes (max " ++ toString maxFrameSize ++ ")"
  | .tooSmall => "Frame too small for header"

def encodeFrame (opcode : OpCode) (payload : Bytes) : Except FrameError Bytes :=
  let length := 2 + payload.length
  if 2 ^ 32 ≤ length then .error .outOfRange
  else .ok (putUint32 (.ofNat length) ++ [protocolVersion, opcode] ++ payload)

structure FrameDecoder where
  buffer : Bytes
  deriving DecidableEq

namespace FrameDecoder

def new : FrameDecoder := ⟨[]⟩

def push (chunk : Bytes) (d : FrameDecoder) : FrameDecoder := ⟨d.buffer ++ chunk⟩

/-- `read`, as a function of the buffer; a frame comes with the buffer past it. -/
def next (buffer : Bytes) : Except FrameError (Option (Frame × Bytes)) :=
  if buffer.length < 4 then .ok none
  else
    let length := (uint32 buffer).toNat
    if maxFrameSize < length then .error (.tooLarge length)
    else if length < 2 then .error .tooSmall
    else
      let totalSize := 4 + length
      if buffer.length < totalSize then .ok none
      else
        let payload := (buffer.take totalSize).drop 6
        .ok (some (⟨buffer.getD 4 0, buffer.getD 5 0, payload⟩, buffer.drop totalSize))

theorem uint32_append {buffer : Bytes} (h : 4 ≤ buffer.length) (more : Bytes) :
    uint32 (buffer ++ more) = uint32 buffer := by
  simp only [uint32, getD_eq_getElem?_getD,
    getElem?_append_left (show 0 < buffer.length by omega),
    getElem?_append_left (show 1 < buffer.length by omega),
    getElem?_append_left (show 2 < buffer.length by omega),
    getElem?_append_left (show 3 < buffer.length by omega)]

theorem next_shrinks {buffer rest : Bytes} {frame : Frame}
    (h : next buffer = .ok (some (frame, rest))) : rest.length < buffer.length := by
  unfold next at h
  split at h
  · cases h
  dsimp only at h
  split at h
  · cases h
  split at h
  · cases h
  split at h
  · cases h
  · cases h
    rw [length_drop]
    omega

theorem next_steady {buffer rest : Bytes} {frame : Frame} (more : Bytes)
    (h : next buffer = .ok (some (frame, rest))) :
    next (buffer ++ more) = .ok (some (frame, rest ++ more)) := by
  unfold next at h ⊢
  split at h
  · cases h
  rename_i hfour
  dsimp only at h ⊢
  rw [uint32_append (Nat.not_lt.mp hfour), length_append, if_neg (by omega)]
  split at h
  · cases h
  rename_i hlarge
  split at h
  · cases h
  rename_i hsmall
  split at h
  · cases h
  rename_i hcomplete
  cases h
  rw [if_neg hlarge, if_neg hsmall, if_neg (by omega), take_append_of_le_length (by omega),
    drop_append_of_le_length (by omega)]
  simp only [getD_eq_getElem?_getD,
    getElem?_append_left (show 4 < buffer.length by omega),
    getElem?_append_left (show 5 < buffer.length by omega)]

theorem next_steadyError {buffer : Bytes} {err : FrameError} (more : Bytes)
    (h : next buffer = .error err) : next (buffer ++ more) = .error err := by
  unfold next at h ⊢
  split at h
  · cases h
  rename_i hfour
  dsimp only at h ⊢
  rw [uint32_append (Nat.not_lt.mp hfour), length_append, if_neg (by omega)]
  split at h
  · rename_i hlarge
    rw [if_pos hlarge]
    exact h
  rename_i hlarge
  split at h
  · rename_i hsmall
    rw [if_neg hlarge, if_pos hsmall]
    exact h
  split at h <;> cases h

def reader : Reader UInt8 Frame FrameError := ⟨next, next_shrinks, next_steady, next_steadyError⟩

def read (d : FrameDecoder) : Except FrameError (Option Frame) × FrameDecoder :=
  match next d.buffer with
  | .error err => (.error err, d)
  | .ok none => (.ok none, d)
  | .ok (some (frame, rest)) => (.ok (some frame), ⟨rest⟩)

def readAll (d : FrameDecoder) : Except FrameError (List Frame) × FrameDecoder :=
  let (frames, rest) := reader.drain d.buffer
  (frames, ⟨rest⟩)

theorem readAll_eq (d : FrameDecoder) : d.readAll =
    match d.read with
    | (.error err, d) => (.error err, d)
    | (.ok none, d) => (.ok [], d)
    | (.ok (some frame), d) => (d.readAll.1.map (frame :: ·), d.readAll.2) := by
  unfold readAll read
  cases hnext : next d.buffer with
  | error err => rw [Reader.drain_error (show reader.next d.buffer = _ from hnext)]
  | ok found =>
    cases found with
    | none => rw [Reader.drain_none (show reader.next d.buffer = _ from hnext)]
    | some item => rw [Reader.drain_some (show reader.next d.buffer = _ from hnext)]

/-- The chunks that the socket delivers, each pushed and read; an error ends it. -/
def onData : List Bytes → FrameDecoder → Except FrameError (List Frame) × FrameDecoder
  | [], d => (.ok [], d)
  | chunk :: chunks, d =>
      match (d.push chunk).readAll with
      | (.error err, d) => (.error err, d)
      | (.ok frames, d) =>
          match onData chunks d with
          | (.error err, d) => (.error err, d)
          | (.ok more, d) => (.ok (frames ++ more), d)

theorem onData_eq_feed (chunks : List Bytes) (d : FrameDecoder) :
    d.onData chunks = ((reader.feed d.buffer chunks).1, ⟨(reader.feed d.buffer chunks).2⟩) := by
  induction chunks generalizing d with
  | nil => rfl
  | cons chunk chunks ih =>
    simp only [onData, readAll, push, Reader.feed]
    cases hdrain : reader.drain (d.buffer ++ chunk) with
    | mk result left =>
      cases result with
      | error err => rfl
      | ok frames =>
        simp only [ih]
        cases hfeed : reader.feed left chunks with
        | mk result' left' => cases result' <;> rfl

end FrameDecoder

section Agreement
variable {payload : Bytes}

theorem encodeFrame_eq_writeFrame (opcode : OpCode) (h : payload.length ≤ maxFrameSize - 2) :
    encodeFrame opcode payload = .ok (writeFrame opcode payload) := by
  have hmax : maxFrameSize = 16777216 := rfl
  rw [encodeFrame, if_neg (by omega)]
  rfl

theorem uint32_writeFrame (opcode : OpCode) (rest : Bytes)
    (h : payload.length ≤ maxFrameSize - 2) :
    (uint32 (writeFrame opcode payload ++ rest)).toNat = 2 + payload.length := by
  rw [writeFrame, append_assoc, append_assoc, Protocol.uint32_putUint32]
  exact Protocol.toNat_length h

theorem length_writeFrame (opcode : OpCode) (payload : Bytes) :
    (writeFrame opcode payload).length = 6 + payload.length := by
  simp [writeFrame, Protocol.length_putUint32]
  omega

theorem next_writeFrame (opcode : OpCode) (rest : Bytes) (h : payload.length ≤ maxFrameSize - 2) :
    FrameDecoder.next (writeFrame opcode payload ++ rest) =
      .ok (some (⟨protocolVersion, opcode, payload⟩, rest)) := by
  have hmax : maxFrameSize = 16777216 := rfl
  have hlength := length_writeFrame opcode payload
  have hsize : 4 + (2 + payload.length) = (writeFrame opcode payload).length := by omega
  simp only [FrameDecoder.next, uint32_writeFrame opcode rest h, length_append, hsize]
  rw [if_neg (by omega), if_neg (by omega), if_neg (by omega), if_neg (by omega),
    take_left, drop_left]
  rfl

def Incomplete (tail : Bytes) : Prop :=
  ∃ opcode payload, payload.length ≤ maxFrameSize - 2 ∧ tail <+: writeFrame opcode payload ∧
    tail.length < (writeFrame opcode payload).length

theorem Incomplete.next {tail : Bytes} (h : Incomplete tail) :
    FrameDecoder.next tail = .ok none := by
  have hmax : maxFrameSize = 16777216 := rfl
  have ⟨opcode, payload, hfits, ⟨missing, hframe⟩, hshort⟩ := h
  rw [FrameDecoder.next]
  split
  · rfl
  · rename_i hfour
    have hlength : (uint32 tail).toNat = 2 + payload.length := by
      rw [← FrameDecoder.uint32_append (Nat.not_lt.mp hfour) missing, hframe]
      have hself := uint32_writeFrame opcode [] hfits
      rwa [append_nil] at hself
    rw [length_writeFrame] at hshort
    dsimp only
    rw [hlength, if_neg (by omega), if_neg (by omega), if_pos (by omega)]

theorem drain_wire {frames : List (OpCode × Bytes)} {tail : Bytes}
    (h : ∀ frame ∈ frames, frame.2.length ≤ maxFrameSize - 2) (htail : Incomplete tail) :
    FrameDecoder.reader.drain (wire frames ++ tail) = (.ok (received frames), tail) := by
  induction frames with
  | nil => exact Reader.drain_none htail.next
  | cons first rest ih =>
    have hfirst : FrameDecoder.reader.next (writeFrame first.1 first.2 ++ (wire rest ++ tail)) =
        .ok (some (⟨protocolVersion, first.1, first.2⟩, wire rest ++ tail)) :=
      next_writeFrame first.1 _ (h first mem_cons_self)
    have hrest := ih fun frame hmem => h frame (mem_cons_of_mem _ hmem)
    have hwire : wire (first :: rest) = writeFrame first.1 first.2 ++ wire rest := rfl
    rw [hwire, append_assoc, Reader.drain_some hfirst, hrest]
    rfl

/-- All encoders write the same bytes, and both decoders read the frames back, the client's
however the bytes arrive. -/
theorem framing_agrees {maxMessageSize : UInt32} {frames : List (OpCode × Bytes)} {tail : Bytes}
    {chunks : List Bytes} (hfits : ∀ frame ∈ frames, Protocol.Fits maxMessageSize frame.2)
    (htail : Incomplete tail) (hchunks : chunks.flatten = wire frames ++ tail) :
    (∀ frame ∈ frames, Protocol.encodeFrame frame.1 frame.2 = .ok (writeFrame frame.1 frame.2) ∧
      encodeFrame frame.1 frame.2 = .ok (writeFrame frame.1 frame.2)) ∧
    Protocol.decodeFrames maxMessageSize (wire frames) = (received frames, .eof) ∧
    FrameDecoder.new.onData chunks = (.ok (received frames), ⟨tail⟩) := by
  refine ⟨fun frame hmem => ?_, Protocol.decodeFrames_wire hfits, ?_⟩
  · have hframe := (hfits frame hmem).frame
    exact ⟨Protocol.encodeFrame_eq_writeFrame _ hframe, encodeFrame_eq_writeFrame _ hframe⟩
  · have hdrain := drain_wire (fun frame hmem => (hfits frame hmem).frame) htail
    rw [← hchunks, ← List.nil_append chunks.flatten] at hdrain
    have hfeed := Reader.feed_eq_drain (show FrameDecoder.reader.next [] = .ok none from rfl) hdrain
    rw [FrameDecoder.onData_eq_feed, FrameDecoder.new, hfeed]

/-- Two frames and the first byte of a third, cut inside the length fields. -/
theorem framing_agrees_cut :
    FrameDecoder.new.onData [[0, 0], [0, 3, 1, 5], [7, 0, 0, 0], [2, 1, 6, 0]] =
      (.ok [⟨1, 5, [7]⟩, ⟨1, 6, []⟩], ⟨[0]⟩) := by
  have hfits : ∀ frame ∈ [((5 : OpCode), [(7 : UInt8)]), (6, [])], Protocol.Fits 10 frame.2 := by
    intro frame hmem
    simp only [List.mem_cons, List.not_mem_nil, or_false] at hmem
    rcases hmem with rfl | rfl <;> exact ⟨by decide, by decide⟩
  have htail : Incomplete [0] := ⟨1, [], by decide, ⟨[0, 0, 2, 1, 1], rfl⟩, by decide⟩
  exact (framing_agrees hfits htail rfl).2.2

end Agreement

end QwerQ.TypeScript
