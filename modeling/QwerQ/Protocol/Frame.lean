import QwerQ.Message

/-! Frames of the wire protocol, as the broker and its Go client write and read them: a
length of four bytes, the version, the opcode and the payload. A reader is the bytes
that are still to come; pooled buffers are not told apart from new ones. -/
namespace QwerQ.Protocol
open List

abbrev Bytes := List UInt8

abbrev OpCode := UInt8

def protocolVersion : UInt8 := 1

def maxFrameSize : UInt32 := 16 * 1024 * 1024

/-- `binary.BigEndian.PutUint32`. -/
def putUint32 (v : UInt32) : Bytes :=
  [.ofNat (v.toNat / 2 ^ 24), .ofNat (v.toNat / 2 ^ 16), .ofNat (v.toNat / 2 ^ 8), .ofNat v.toNat]

/-- `binary.BigEndian.Uint32`, of the first four bytes. -/
def uint32 (b : Bytes) : UInt32 :=
  .ofNat ((b.getD 0 0).toNat * 2 ^ 24 + (b.getD 1 0).toNat * 2 ^ 16 + (b.getD 2 0).toNat * 2 ^ 8 +
    (b.getD 3 0).toNat)

structure Frame where
  version : UInt8
  opCode : OpCode
  payload : Bytes
  deriving DecidableEq, Repr

/-- The size of the frame is computed in 32 bits, and the payload is copied as far as it
fits. -/
def encodeFrame (op : OpCode) (payload : Bytes) : Go Bytes :=
  let length := UInt32.ofNat (2 + payload.length)
  let size := (4 + length).toNat
  if size < 4 then .error .sliceBounds
  else if size < 6 then .error .indexOutOfRange
  else .ok (putUint32 length ++ [protocolVersion, op] ++ payload.take (size - 6))

def writeFrame (op : OpCode) (payload : Bytes) : Bytes :=
  putUint32 (.ofNat (2 + payload.length)) ++ [protocolVersion, op] ++ payload

inductive FrameErr where
  | eof
  | unexpectedEOF
  | frameTooLarge
  | messageTooLarge
  | frameTooSmall
  deriving DecidableEq, Repr

def FrameErr.message : FrameErr → String
  | .eof => "EOF"
  | .unexpectedEOF => "unexpected EOF"
  | .frameTooLarge => "frame exceeds maximum size"
  | .messageTooLarge => "message exceeds maximum size"
  | .frameTooSmall => "frame too small for header"

/-- `io.ReadFull` of at least one byte. -/
def readFull (n : Nat) (r : Bytes) : Except FrameErr Bytes × Bytes :=
  if n ≤ r.length then (.ok (r.take n), r.drop n)
  else (.error (if r.isEmpty then .eof else .unexpectedEOF), [])

def decodeFrame (maxMessageSize : UInt32) (r : Bytes) : Except FrameErr Frame × Bytes :=
  match readFull 4 r with
  | (.error err, r) => (.error err, r)
  | (.ok lengthBuf, r) =>
      let length := uint32 lengthBuf
      if maxFrameSize < length then (.error .frameTooLarge, r)
      else if length < 2 then (.error .frameTooSmall, r)
      else if maxMessageSize < length - 2 then (.error .messageTooLarge, r)
      else
        match readFull length.toNat r with
        | (.error err, r) => (.error err, r)
        | (.ok data, r) => (.ok ⟨data.getD 0 0, data.getD 1 0, data.drop 2⟩, r)

variable {maxMessageSize : UInt32}

theorem readFull_rest_le (n : Nat) (r : Bytes) : (readFull n r).2.length ≤ r.length - n := by
  unfold readFull
  split
  · simp
  · simp

variable {r rest : Bytes} {frame : Frame}

theorem decodeFrame_ok
    (h : decodeFrame maxMessageSize r = (.ok frame, rest)) :
    ∃ lengthBuf r' data, readFull 4 r = (.ok lengthBuf, r') ∧
      readFull (uint32 lengthBuf).toNat r' = (.ok data, rest) ∧ uint32 lengthBuf ≤ maxFrameSize ∧
      2 ≤ uint32 lengthBuf ∧ uint32 lengthBuf - 2 ≤ maxMessageSize ∧
      frame = ⟨data.getD 0 0, data.getD 1 0, data.drop 2⟩ := by
  unfold decodeFrame at h
  split at h
  · cases h
  · rename_i lengthBuf r' hlength
    dsimp only at h
    split at h
    · cases h
    rename_i hlarge
    split at h
    · cases h
    rename_i hsmall
    split at h
    · cases h
    rename_i hallowed
    split at h
    · cases h
    · rename_i data r'' hdata
      cases h
      exact ⟨lengthBuf, r', data, hlength, hdata, UInt32.not_lt.mp hlarge, UInt32.not_lt.mp hsmall,
        UInt32.not_lt.mp hallowed, rfl⟩

theorem length_of_readFull {n : Nat} {data : Bytes} (h : readFull n r = (.ok data, rest)) :
    data.length = n ∧ n ≤ r.length := by
  unfold readFull at h
  split at h
  · rename_i hle
    cases h
    exact ⟨length_take_of_le hle, hle⟩
  · cases h

theorem decodeFrame_shrinks
    (h : decodeFrame maxMessageSize r = (.ok frame, rest)) : rest.length < r.length := by
  have ⟨lengthBuf, r', data, hlength, hdata, _⟩ := decodeFrame_ok h
  have hfirst := readFull_rest_le 4 r
  have hsecond := readFull_rest_le (uint32 lengthBuf).toNat r'
  have hfour := (length_of_readFull hlength).2
  rw [hlength] at hfirst
  rw [hdata] at hsecond
  dsimp only at hfirst hsecond
  omega

def decodeFrames (maxMessageSize : UInt32) (r : Bytes) : List Frame × FrameErr :=
  match h : decodeFrame maxMessageSize r with
  | (.error err, _) => ([], err)
  | (.ok frame, rest) =>
      have : rest.length < r.length := decodeFrame_shrinks h
      let (frames, err) := decodeFrames maxMessageSize rest
      (frame :: frames, err)
termination_by r.length

theorem uint32_putUint32 (v : UInt32) (rest : Bytes) : uint32 (putUint32 v ++ rest) = v := by
  have hlt := v.toNat_lt
  apply UInt32.toNat_inj.mp
  simp only [uint32, putUint32, cons_append, getD_cons_zero, getD_cons_succ,
    UInt8.toNat_ofNat', UInt32.toNat_ofNat']
  omega

theorem length_putUint32 (v : UInt32) : (putUint32 v).length = 4 := rfl

/-- The limits on a payload, in the broker's terms. -/
structure Fits (maxMessageSize : UInt32) (payload : Bytes) : Prop where
  message : payload.length ≤ maxMessageSize.toNat
  frame : payload.length ≤ maxFrameSize.toNat - 2

section Fits
variable {payload : Bytes}

theorem toNat_length (h : payload.length ≤ maxFrameSize.toNat - 2) :
    (UInt32.ofNat (2 + payload.length)).toNat = 2 + payload.length := by
  have hmax : maxFrameSize.toNat = 16777216 := rfl
  rw [UInt32.toNat_ofNat']
  omega

theorem encodeFrame_eq_writeFrame (op : OpCode) (h : payload.length ≤ maxFrameSize.toNat - 2) :
    encodeFrame op payload = .ok (writeFrame op payload) := by
  have hmax : maxFrameSize.toNat = 16777216 := rfl
  have hsize : (4 + UInt32.ofNat (2 + payload.length)).toNat = 6 + payload.length := by
    rw [UInt32.toNat_add, toNat_length h]
    change (4 + (2 + payload.length)) % 2 ^ 32 = _
    omega
  simp only [encodeFrame, hsize]
  rw [if_neg (by omega), if_neg (by omega), Nat.add_sub_cancel_left, take_length]
  rfl

theorem decodeFrame_writeFrame (op : OpCode) (rest : Bytes) (h : Fits maxMessageSize payload) :
    decodeFrame maxMessageSize (writeFrame op payload ++ rest) =
      (.ok ⟨protocolVersion, op, payload⟩, rest) := by
  have hmax : maxFrameSize.toNat = 16777216 := rfl
  have hlength := toNat_length h.frame
  have hframe := h.frame
  have hmessage := h.message
  have hheader : readFull 4 (writeFrame op payload ++ rest) =
      (.ok (putUint32 (.ofNat (2 + payload.length))), protocolVersion :: op :: payload ++ rest) := by
    rw [readFull, if_pos (by simp [writeFrame, length_putUint32])]
    rfl
  have hbody : readFull (2 + payload.length) (protocolVersion :: op :: payload ++ rest) =
      (.ok (protocolVersion :: op :: payload), rest) := by
    rw [readFull, if_pos (by simp; omega)]
    simp [Nat.add_comm 2]
  have hnotLarge : ¬ maxFrameSize < UInt32.ofNat (2 + payload.length) := by
    rw [UInt32.lt_iff_toNat_lt, hlength]
    omega
  have hnotSmall : ¬ UInt32.ofNat (2 + payload.length) < 2 := by
    rw [UInt32.lt_iff_toNat_lt, hlength]
    exact Nat.not_lt.mpr (Nat.le_add_right 2 _)
  have hpayload : (UInt32.ofNat (2 + payload.length) - 2).toNat = payload.length := by
    rw [UInt32.toNat_sub_of_le _ _ (UInt32.not_lt.mp hnotSmall), hlength]
    exact Nat.add_sub_cancel_left ..
  have hallowed : ¬ maxMessageSize < UInt32.ofNat (2 + payload.length) - 2 := by
    rw [UInt32.lt_iff_toNat_lt, hpayload]
    exact Nat.not_lt.mpr h.message
  have huint : uint32 (putUint32 (.ofNat (2 + payload.length))) = .ofNat (2 + payload.length) := by
    have hself := uint32_putUint32 (.ofNat (2 + payload.length)) []
    rwa [append_nil] at hself
  simp only [decodeFrame, hheader, huint, if_neg hnotLarge, if_neg hnotSmall, if_neg hallowed,
    hlength, hbody]
  rfl

theorem fits_of_decodeFrame
    (h : decodeFrame maxMessageSize r = (.ok frame, rest)) : Fits maxMessageSize frame.payload := by
  obtain ⟨lengthBuf, r', data, -, hdata, hlarge, hsmall, hallowed, rfl⟩ := decodeFrame_ok h
  have hpayload : (data.drop 2).length = (uint32 lengthBuf - 2).toNat := by
    rw [length_drop, (length_of_readFull hdata).1, UInt32.toNat_sub_of_le _ _ hsmall]
    rfl
  constructor
  · rw [hpayload]
    exact UInt32.le_iff_toNat_le.mp hallowed
  · rw [hpayload, UInt32.toNat_sub_of_le _ _ hsmall]
    exact Nat.sub_le_sub_right (UInt32.le_iff_toNat_le.mp hlarge) 2

theorem decodeFrame_writeFrame_iff (op : OpCode) (rest : Bytes) :
    decodeFrame maxMessageSize (writeFrame op payload ++ rest) =
      (.ok ⟨protocolVersion, op, payload⟩, rest) ↔ Fits maxMessageSize payload :=
  ⟨fits_of_decodeFrame, decodeFrame_writeFrame op rest⟩

end Fits

def wire (frames : List (OpCode × Bytes)) : Bytes :=
  (frames.map fun (op, payload) => writeFrame op payload).flatten

def received (frames : List (OpCode × Bytes)) : List Frame :=
  frames.map fun (op, payload) => ⟨protocolVersion, op, payload⟩

theorem decodeFrames_error {err : FrameErr}
    (h : decodeFrame maxMessageSize r = (.error err, rest)) :
    decodeFrames maxMessageSize r = ([], err) := by
  rw [decodeFrames]
  split
  · rename_i heq
    rw [h] at heq
    cases heq
    rfl
  · rename_i heq
    rw [h] at heq
    cases heq

theorem decodeFrames_ok
    (h : decodeFrame maxMessageSize r = (.ok frame, rest)) :
    decodeFrames maxMessageSize r =
      (frame :: (decodeFrames maxMessageSize rest).1, (decodeFrames maxMessageSize rest).2) := by
  rw [decodeFrames]
  split
  · rename_i heq
    rw [h] at heq
    cases heq
  · rename_i heq
    rw [h] at heq
    cases heq
    rfl

theorem decodeFrames_wire {frames : List (OpCode × Bytes)}
    (h : ∀ frame ∈ frames, Fits maxMessageSize frame.2) :
    decodeFrames maxMessageSize (wire frames) = (received frames, .eof) := by
  induction frames with
  | nil =>
    have hend : decodeFrame maxMessageSize [] = (.error .eof, []) := rfl
    exact decodeFrames_error hend
  | cons first rest ih =>
    have hfirst := decodeFrame_writeFrame first.1 (wire rest) (h first mem_cons_self)
    have hrest := ih fun frame hmem => h frame (mem_cons_of_mem _ hmem)
    have hwire : wire (first :: rest) = writeFrame first.1 first.2 ++ wire rest := rfl
    rw [hwire, decodeFrames_ok hfirst, hrest]
    rfl

end QwerQ.Protocol
