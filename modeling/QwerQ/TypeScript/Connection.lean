import QwerQ.TypeScript.Messages
import QwerQ.Server

/-! The connection of the TypeScript client. Responses carry no number, so the client
keeps its requests in the order in which it has sent them and gives each response to the
first. -/
namespace QwerQ.TypeScript
open List
open Protobuf (Bytes)
open Protocol (OpCode Frame)

/-- The calls of the interface that send a frame, `subscribe` apart. -/
inductive Call where
  | publish (queue : String) (payload : Bytes) (headers : Option StringMap)
      (messageId idempotencyKey : Option String)
  | ack (messageId : String)
  | nack (messageId : String) (requeue : Bool)
  | extendVisibility (messageId : String) (extensionSeconds : Nat)
  | call (queue : String) (payload : Bytes) (headers : Option StringMap) (timeoutMs : Option Nat)
  | listQueues
  | listSchemas
  | registerSchema (queue : String) (descriptor : Bytes) (messageType : String)

def Call.opcode : Call → OpCode
  | .publish .. => 0x01
  | .ack _ => 0x05
  | .nack .. => 0x06
  | .extendVisibility .. => 0x08
  | .call .. => 0x20
  | .listQueues => 0x32
  | .listSchemas => 0x30
  | .registerSchema .. => 0x10

def Call.payload : Call → Bytes
  | .publish queue payload headers messageId idempotencyKey =>
      encodePublishRequest queue payload headers messageId idempotencyKey
  | .ack messageId => encodeAckRequest messageId
  | .nack messageId requeue => encodeNackRequest messageId requeue
  | .extendVisibility messageId extensionSeconds =>
      encodeExtendVisibilityRequest messageId extensionSeconds
  | .call queue payload headers timeoutMs => encodeCallRequest queue payload headers timeoutMs
  | .listQueues | .listSchemas => []
  | .registerSchema queue descriptor messageType =>
      encodeSchemaRegisterRequest queue descriptor messageType

/-- The opcode that the call waits for; `ack` and `nack` wait for nothing. -/
def Call.expectedOpcode : Call → Option OpCode
  | .publish .. => some 0x02
  | .ack _ | .nack .. => none
  | .extendVisibility .. => some 0x09
  | .call .. => some 0x21
  | .listQueues => some 0x33
  | .listSchemas => some 0x31
  | .registerSchema .. => some 0x12

def Call.frame (c : Call) : Frame := ⟨Protocol.protocolVersion, c.opcode, c.payload⟩

/-- A promise, by its number, and what it waits for. -/
structure PendingRequest where
  promise : Nat
  expectedOpcode : OpCode
  deriving DecidableEq, Repr

inductive Outcome where
  | resolved (frame : Frame)
  | brokerError (code : Nat) (message : String)
  | unexpectedOpcode (expected got : OpCode)
  deriving DecidableEq, Repr

inductive Effect where
  | message (msg : QMessage)
  | settle (request : PendingRequest) (outcome : Outcome)
  | emitError (code : Nat) (message : String)

/-- A connected client; `promises` counts those it has made. -/
structure Connection where
  pending : List PendingRequest
  promises : Nat

def opMessage : OpCode := 0x04
def opError : OpCode := 0x07

/-- `_sendAndWait`, with the request that is now pending. -/
def Connection.sendAndWait (expectedOpcode : OpCode) (c : Connection) : Connection × PendingRequest :=
  let request := ⟨c.promises, expectedOpcode⟩
  (⟨c.pending ++ [request], c.promises + 1⟩, request)

/-- `_handleFrame`. What decoding throws leaves the function. -/
def Connection.handleFrame (lossy : Bytes → String) (frame : Frame) (c : Connection) :
    Except DecodeError (Connection × Option Effect) :=
  if frame.opCode = opMessage then do
    let msg ← decodeMessage lossy frame.payload
    return (c, some (.message msg))
  else if frame.opCode = opError then do
    let (code, message) ← decodeErrorResponse lossy frame.payload
    match c.pending with
    | [] => return (c, some (.emitError code message))
    | pending :: rest =>
        return ({ c with pending := rest }, some (.settle pending (.brokerError code message)))
  else
    match c.pending with
    | [] => .ok (c, none)
    | pending :: rest =>
        let outcome :=
          if frame.opCode = pending.expectedOpcode then .resolved frame
          else .unexpectedOpcode pending.expectedOpcode frame.opCode
        .ok ({ c with pending := rest }, some (.settle pending outcome))

inductive Answer where
  | response (opcode : OpCode) (payload : Bytes)
  | error (code : UInt32) (message : String)
  deriving DecidableEq

def Answer.frame : Answer → Frame
  | .response opcode payload => ⟨Protocol.protocolVersion, opcode, payload⟩
  | .error code message =>
      ⟨Protocol.protocolVersion, opError, Protocol.marshal (Protocol.ErrorResponse.fields ⟨code, message⟩)⟩

/-- What the answer is to the promise whose request it answers. -/
def Answer.outcome : Answer → Outcome
  | .response opcode payload => .resolved (Answer.response opcode payload).frame
  | .error code message => .brokerError code.toNat message

/-- The opcode of the server's response to a frame. The other opcodes are those of frames
that get no response and of frames that are refused. -/
def responseOpcode (opcode : OpCode) : Option OpCode :=
  if opcode = 0x01 then some 0x02
  else if opcode = 0x08 then some 0x09
  else if opcode = 0x0A then some 0x0C
  else if opcode = 0x10 ∨ opcode = 0x11 then some 0x12
  else if opcode = 0x20 then some 0x21
  else if opcode = 0x30 then some 0x31
  else if opcode = 0x32 then some 0x33
  else if opcode = 0x50 then some 0x52
  else if opcode = 0x51 then some 0x53
  else none

/-- How `handleFrame` of the server can answer a frame. Any frame can be answered with an
error, also one that gets no response otherwise. -/
inductive Answers (frame : Frame) : Option Answer → Prop where
  | response {opcode : OpCode} (payload : Bytes) : responseOpcode frame.opCode = some opcode →
      Answers frame (some (.response opcode payload))
  | silent : responseOpcode frame.opCode = none → Answers frame none
  | error (code : UInt32) (message : String) : Answers frame (some (.error code message))

/-! The answers of the server's handlers are among them. -/

/-- The frame that the server writes for a response, with the entries of a map in any order. -/
def ofResponse (order : List String) : Response → Answer
  | .error code message => .error code message
  | .seekAck offset => .response 0x52 (Protocol.marshal (Protobuf.varintField 1 offset))
  | .callResponse payload headers =>
      .response 0x21 (Protocol.marshal (Protobuf.bytesField 1 payload ++
        Protobuf.mapField 2 Protobuf.fullEntry (headers.inOrder order)))

variable {sent : List (Option PendingRequest × Frame)} {client : Connection}
  {effect : Option Effect} {code : UInt32} {message : String}

section Handlers
open Process
variable {w : World} {state : ConnState} (order : List String)

theorem settled_answers {frame : Frame} (h : responseOpcode frame.opCode = none)
    (result : Bool × Option Err) : Answers frame ((Server.settled result).map (ofResponse order)) := by
  obtain ⟨found, failed⟩ := result
  cases failed with
  | some err => exact .error _ _
  | none =>
    cases found with
    | false => exact .error _ _
    | true => exact .silent h

theorem handleAck_answers (id : String) (pass : Pass) :
    (Server.handleAck id pass state).Ensures w fun result _ =>
      Answers (Call.ack id).frame (result.2.map (ofResponse order)) := by
  unfold Server.handleAck
  split
  · exact .silent rfl
  · simp only [ensures_bind]
    exact ensures_iff.mpr fun result _ _ => settled_answers order rfl result

theorem handleNack_answers (id : String) (requeue : Bool) (env : NackEnv) :
    (Server.handleNack id requeue env state).Ensures w fun result _ =>
      Answers (Call.nack id requeue).frame (result.2.map (ofResponse order)) := by
  simp only [Server.handleNack, ensures_bind]
  exact ensures_iff.mpr fun result _ _ => settled_answers order rfl result

theorem callWith_answers {frame : Frame} (h : responseOpcode frame.opCode = some 0x21)
    (manager : CallManager) (req : CallRequest) (env : CallEnv) :
    (Server.callWith manager req env state).Ensures w fun result _ =>
      Answers frame (result.2.map (ofResponse order)) := by
  simp only [Server.callWith, ensures_bind]
  refine ensures_iff.mpr fun published _ _ => ?_
  cases published with
  | error err => exact .error _ _
  | ok id =>
    cases env.reply with
    | none => exact .error _ _
    | some reply => exact .response _ h

theorem handleCall_answers {frame : Frame} (h : responseOpcode frame.opCode = some 0x21)
    (req : CallRequest) (env : CallEnv) :
    (Server.handleCall req env state).Ensures w fun result _ =>
      Answers frame (result.2.map (ofResponse order)) := by
  unfold Server.handleCall
  cases state.callManager with
  | some manager => exact callWith_answers order h manager req env
  | none =>
    simp only [ensures_bind]
    exact ensures_iff.mpr fun manager _ _ => callWith_answers order h manager req env

end Handlers

theorem responseOpcode_frame (c : Call) : responseOpcode c.frame.opCode = c.expectedOpcode := by
  cases c <;> rfl

theorem responseOpcode_ordinary {opcode : OpCode} :
    ∀ response ∈ responseOpcode opcode, response ≠ opMessage ∧ response ≠ opError := by
  have hbranch {c : Prop} [Decidable c] {first : OpCode} {rest : Option OpCode}
      (hfirst : first ≠ opMessage ∧ first ≠ opError)
      (hrest : ∀ response ∈ rest, response ≠ opMessage ∧ response ≠ opError) :
      ∀ response ∈ (if c then some first else rest), response ≠ opMessage ∧ response ≠ opError := by
    split
    · rintro _ ⟨⟩
      exact hfirst
    · exact hrest
  unfold responseOpcode
  iterate 9 refine hbranch (by decide) ?_
  exact nofun

theorem decodeErrorResponse_fields {lossy : Bytes → String}
    (h : (Protocol.marshal (Protocol.ErrorResponse.fields ⟨code, message⟩)).length < 2 ^ 53) :
    decodeErrorResponse lossy (Protocol.marshal (Protocol.ErrorResponse.fields ⟨code, message⟩)) =
      .ok (code.toNat, message) := by
  generalize hfields : Protocol.ErrorResponse.fields ⟨code, message⟩ = fields at h
  have hplain : Protobuf.Plain fields := by
    simp [← hfields, Protocol.ErrorResponse.fields, Protobuf.maxNumber]
  have hcode : Protobuf.Spells (.varint code.toUInt64) (.varint 0) (Protobuf.valuesAt 1 fields) :=
    Protobuf.spells_varint (by simp [← hfields, Protocol.ErrorResponse.fields])
  have hmessage : Protobuf.Spells (.bytes (Protobuf.utf8 message)) (.bytes [])
      (Protobuf.valuesAt 2 fields) :=
    Protobuf.spells_string (by simp [← hfields, Protocol.ErrorResponse.fields])
  have hnumber : numberOf code.toUInt64.toNat = code.toNat := by
    have hbound := code.toNat_lt
    rw [UInt32.toNat_toUInt64, numberOf_of_lt (by omega)]
  simp only [decodeErrorResponse, Protocol.marshal, decodeFields_encode hplain h, bind, Except.bind,
    getUint32_spelled (at_map 1 fields) hcode, getString_spelled (at_map 2 fields) hmessage, hnumber]
  rfl

/-- A frame from the server. The frame does not tell which pending request, if any, the
call had that it answers. -/
inductive Arrival where
  | message (msg : Protocol.Message) (order : List String)
  | answer (request : Option PendingRequest) (answer : Answer)

def Arrival.frame : Arrival → Frame
  | .message msg order => ⟨Protocol.protocolVersion, opMessage, Protocol.marshal (msg.fields order)⟩
  | .answer _ given => given.frame

def Arrival.request : Arrival → Option PendingRequest
  | .message .. => none
  | .answer request _ => request

def Arrival.Buffered (arrival : Arrival) : Prop := arrival.frame.payload.length < 2 ^ 53

instance (arrival : Arrival) : Decidable arrival.Buffered := inferInstanceAs (Decidable (_ < _))

/-- The frames on the way to the server and those on the way to the client. -/
structure Link where
  client : Connection
  sent : List (Option PendingRequest × Frame)
  arriving : List Arrival

inductive Event where
  | answered (request : PendingRequest) (answer : Answer)
  /-- The frame that settles the request answers the call of `answers`. -/
  | settled (request : PendingRequest) (answers : Option PendingRequest) (outcome : Outcome)

namespace Link

def connected : Link := ⟨⟨[], 0⟩, [], []⟩

def call (c : Call) (s : Link) : Link :=
  match c.expectedOpcode with
  | some opcode =>
      let (client, request) := s.client.sendAndWait opcode
      { s with client := client, sent := s.sent ++ [(some request, c.frame)] }
  | none => { s with sent := s.sent ++ [(none, c.frame)] }

def answeredBy : Option PendingRequest → Option Answer → List Event
  | some request, some answer => [.answered request answer]
  | _, _ => []

def settledBy (arrival : Arrival) : Option Effect → List Event
  | some (.settle request outcome) => [.settled request arrival.request outcome]
  | _ => []

/-- The server handles frames in order and delivers messages at any time; the client
receives in order, if `clear` holds before. -/
inductive Step (lossy : Bytes → String) (clear : Link → Prop) :
    List Event → Link → List Event → Link → Prop where
  | call {history : List Event} {s : Link} (c : Call) : Step lossy clear history s [] (s.call c)
  | serve {history : List Event} {s : Link} {request : Option PendingRequest} {frame : Frame}
      {sent : List (Option PendingRequest × Frame)} (answer : Option Answer) :
      s.sent = (request, frame) :: sent → Answers frame answer →
      (∀ given ∈ answer, (Arrival.answer request given).Buffered) →
      Step lossy clear history s (answeredBy request answer)
        { s with sent := sent, arriving := s.arriving ++ answer.toList.map (.answer request) }
  | deliver {history : List Event} {s : Link} (msg : Protocol.Message) (order : List String) :
      (Arrival.message msg order).Buffered →
      Step lossy clear history s [] { s with arriving := s.arriving ++ [.message msg order] }
  | receive {history : List Event} {s : Link} {arrival : Arrival} {arriving : List Arrival}
      {client : Connection} {effect : Option Effect} :
      s.arriving = arrival :: arriving → clear s →
      s.client.handleFrame lossy arrival.frame = .ok (client, effect) →
      Step lossy clear history s (settledBy arrival effect)
        { s with client := client, arriving := arriving }

abbrev Runs (lossy : Bytes → String) (clear : Link → Prop) := Run (Step lossy clear)

def Matched (history : List Event) : Prop :=
  ∀ request answers outcome, .settled request answers outcome ∈ history →
    answers = some request ∧ ∃ answer, .answered request answer ∈ history ∧ outcome = answer.outcome

/-- A frame that answers an `ack` or a `nack` finds no request pending. -/
def Clear (s : Link) : Prop :=
  ∀ answer arriving, s.arriving = .answer none answer :: arriving → s.client.pending = []

section Receive
variable {lossy : Bytes → String} {c : Connection} {request : PendingRequest}
  {rest : List PendingRequest} {answer : Answer}

/-- An answer that the request can be given: an error, or a response of the expected opcode. -/
def Suits (request : PendingRequest) : Answer → Prop
  | .response opcode _ => opcode = request.expectedOpcode ∧ opcode ≠ opMessage ∧ opcode ≠ opError
  | .error .. => True

theorem handleFrame_answer (hpending : c.pending = request :: rest) (hsuits : Suits request answer)
    (hbuffered : answer.frame.payload.length < 2 ^ 53) :
    c.handleFrame lossy answer.frame =
      .ok ({ c with pending := rest }, some (.settle request answer.outcome)) := by
  cases answer with
  | response opcode payload =>
    have hopcode : (Answer.response opcode payload).frame.opCode = request.expectedOpcode := hsuits.1
    have hmessage : (Answer.response opcode payload).frame.opCode ≠ opMessage := hsuits.2.1
    have herror : (Answer.response opcode payload).frame.opCode ≠ opError := hsuits.2.2
    rw [Connection.handleFrame, if_neg hmessage, if_neg herror, hpending]
    simp only [if_pos hopcode]
    rfl
  | error code message =>
    have hne : opError ≠ opMessage := by decide
    simp only [Connection.handleFrame, Answer.frame, if_neg hne, if_pos,
      decodeErrorResponse_fields hbuffered, bind, Except.bind, hpending]
    rfl

theorem handleFrame_stray (hpending : c.pending = [])
    (hbuffered : (Answer.error code message).frame.payload.length < 2 ^ 53) :
    c.handleFrame lossy (Answer.error code message).frame =
      .ok (c, some (.emitError code.toNat message)) := by
  have hne : opError ≠ opMessage := by decide
  simp only [Connection.handleFrame, Answer.frame, if_neg hne, if_pos,
    decodeErrorResponse_fields hbuffered, bind, Except.bind, hpending]
  rfl

theorem handleFrame_message {msg : Protocol.Message} {order : List String}
    (hbuffered : (Arrival.message msg order).Buffered) :
    ∃ received, c.handleFrame lossy (Arrival.message msg order).frame =
      .ok (c, some (.message received)) := by
  have ⟨received, hdecode⟩ : ∃ received,
      decodeMessage lossy (Arrival.message msg order).frame.payload = .ok received := by
    obtain ⟨pairs, -, hdecode⟩ :=
      @decodeMessage_encode lossy _ _ (msg.encodedBy_fields order) hbuffered
    exact ⟨_, hdecode⟩
  have hopcode : (Arrival.message msg order).frame.opCode = opMessage := rfl
  refine ⟨received, ?_⟩
  rw [Connection.handleFrame, if_pos hopcode, hdecode]
  rfl

end Receive

/-- The requests pending at the client are those whose answers are on the way, and then
those whose calls are. -/
structure Aligned (history : List Event) (s : Link) : Prop where
  pending : s.client.pending = s.arriving.filterMap Arrival.request ++ s.sent.filterMap Prod.fst
  sent : ∀ request frame, (request, frame) ∈ s.sent →
    responseOpcode frame.opCode = request.map PendingRequest.expectedOpcode
  buffered : ∀ arrival ∈ s.arriving, arrival.Buffered
  answered : ∀ request answer, .answer (some request) answer ∈ s.arriving →
    .answered request answer ∈ history ∧ Suits request answer
  stray : ∀ answer, .answer none answer ∈ s.arriving → ∃ code message, answer = .error code message

theorem aligned_connected : Aligned [] connected := ⟨rfl, nofun, nofun, nofun, nofun⟩

section Steps
variable {lossy : Bytes → String} {history events : List Event} {s after : Link}

theorem Aligned.call (h : Aligned history s) (c : Call) : Aligned history (s.call c) := by
  have hsent (request : Option PendingRequest)
      (hexpected : c.expectedOpcode = request.map PendingRequest.expectedOpcode) :
      ∀ other frame, (other, frame) ∈ s.sent ++ [(request, c.frame)] →
        responseOpcode frame.opCode = other.map PendingRequest.expectedOpcode := by
    intro other frame hmem
    rcases mem_append.mp hmem with hold | hnew
    · exact h.sent other frame hold
    · cases mem_singleton.mp hnew
      rw [responseOpcode_frame, hexpected]
  unfold Link.call
  cases hexpected : c.expectedOpcode with
  | some opcode =>
    refine ⟨?_, hsent _ hexpected, h.buffered, h.answered, h.stray⟩
    simp only [Connection.sendAndWait, h.pending, filterMap_append, append_assoc]
    rfl
  | none =>
    refine ⟨?_, hsent _ hexpected, h.buffered, h.answered, h.stray⟩
    simp only [h.pending, filterMap_append, filterMap_cons_none, filterMap_nil,
      append_nil]

theorem Aligned.arrive {arrival : Arrival}
    (h : Aligned history s)
    (hpending : s.client.pending = (s.arriving ++ [arrival]).filterMap Arrival.request ++
      sent.filterMap Prod.fst)
    (hsent : ∀ request frame, (request, frame) ∈ sent →
      responseOpcode frame.opCode = request.map PendingRequest.expectedOpcode)
    (hbuffered : arrival.Buffered)
    (hanswered : ∀ request answer, arrival = .answer (some request) answer →
      .answered request answer ∈ events ∧ Suits request answer)
    (hstray : ∀ answer, arrival = .answer none answer → ∃ code message, answer = .error code message) :
    Aligned (history ++ events) { s with sent := sent, arriving := s.arriving ++ [arrival] } := by
  have hmem {other : Arrival} (hother : other ∈ s.arriving ++ [arrival]) :
      other ∈ s.arriving ∨ arrival = other := by
    simpa [eq_comm] using hother
  refine ⟨hpending, hsent, fun other hother => ?_, fun request answer hother => ?_,
    fun answer hother => ?_⟩
  · rcases hmem hother with hold | rfl
    · exact h.buffered other hold
    · exact hbuffered
  · rcases hmem hother with hold | hnew
    · have ⟨hgiven, hsuits⟩ := h.answered request answer hold
      exact ⟨mem_append_left events hgiven, hsuits⟩
    · have ⟨hgiven, hsuits⟩ := hanswered request answer hnew
      exact ⟨mem_append_right history hgiven, hsuits⟩
  · rcases hmem hother with hold | hnew
    · exact h.stray answer hold
    · exact hstray answer hnew

theorem suits_of_answers {frame : Frame} {answer : Answer} {request : PendingRequest}
    (h : Answers frame (some answer))
    (hexpected : responseOpcode frame.opCode = some request.expectedOpcode) :
    Suits request answer := by
  cases h with
  | response payload hopcode =>
    rw [hexpected] at hopcode
    cases hopcode
    exact ⟨rfl, responseOpcode_ordinary _ hexpected⟩
  | error code message => trivial

theorem Aligned.serve {request : Option PendingRequest} {frame : Frame}
    {answer : Option Answer} (h : Aligned history s)
    (hsent : s.sent = (request, frame) :: sent) (hanswers : Answers frame answer)
    (hbuffered : ∀ given ∈ answer, (Arrival.answer request given).Buffered) :
    Aligned (history ++ answeredBy request answer)
      { s with sent := sent, arriving := s.arriving ++ answer.toList.map (.answer request) } := by
  have hexpected := h.sent request frame (hsent ▸ mem_cons_self)
  have hrest : ∀ other next, (other, next) ∈ sent →
      responseOpcode next.opCode = other.map PendingRequest.expectedOpcode :=
    fun other next hmem => h.sent other next (hsent ▸ mem_cons_of_mem _ hmem)
  have hpending := h.pending
  rw [hsent] at hpending
  cases answer with
  | none =>
    -- only a frame that nothing waits for is left without an answer
    have hnone : request = none := by
      cases hanswers with
      | silent hsilent =>
        rw [hsilent] at hexpected
        exact Option.map_eq_none_iff.mp hexpected.symm
    subst hnone
    simp only [Option.toList_none, map_nil, append_nil, answeredBy]
    exact ⟨hpending, hrest, h.buffered, h.answered, h.stray⟩
  | some answer =>
    refine h.arrive ?_ hrest (hbuffered answer rfl) ?_ ?_
    · rw [hpending, filterMap_append, append_assoc]
      cases request <;> rfl
    · rintro _ _ ⟨⟩
      exact ⟨mem_singleton.mpr rfl, suits_of_answers hanswers hexpected⟩
    · rintro _ ⟨⟩
      cases hanswers with
      | response payload hopcode =>
        rw [hexpected] at hopcode
        cases hopcode
      | error code message => exact ⟨code, message, rfl⟩

theorem Aligned.deliver {msg : Protocol.Message} {order : List String} (h : Aligned history s)
    (hbuffered : (Arrival.message msg order).Buffered) :
    Aligned history { s with arriving := s.arriving ++ [.message msg order] } := by
  rw [← append_nil history]
  refine h.arrive ?_ h.sent hbuffered nofun nofun
  rw [h.pending, filterMap_append]
  simp [Arrival.request]

/-- What the next frame does to a client whose requests are aligned. -/
inductive Received (lossy : Bytes → String) (history : List Event) (s : Link)
    (arriving : List Arrival) : Arrival → Prop where
  | message {msg : Protocol.Message} {order : List String} {received : QMessage} :
      s.client.handleFrame lossy (Arrival.message msg order).frame =
        .ok (s.client, some (.message received)) →
      Received lossy history s arriving (.message msg order)
  | own {request : PendingRequest} {answer : Answer} :
      .answered request answer ∈ history →
      s.client.pending = request :: (arriving.filterMap Arrival.request ++ s.sent.filterMap Prod.fst) →
      s.client.handleFrame lossy answer.frame =
        .ok ({ s.client with
          pending := arriving.filterMap Arrival.request ++ s.sent.filterMap Prod.fst },
          some (.settle request answer.outcome)) →
      Received lossy history s arriving (.answer (some request) answer)
  | emitted {answer : Answer} {code : Nat} {message : String} : s.client.pending = [] →
      s.client.handleFrame lossy answer.frame = .ok (s.client, some (.emitError code message)) →
      Received lossy history s arriving (.answer none answer)
  | foreign {answer : Answer} {request : PendingRequest} {rest : List PendingRequest} :
      s.client.pending = request :: rest →
      s.client.handleFrame lossy answer.frame =
        .ok ({ s.client with pending := rest }, some (.settle request answer.outcome)) →
      Received lossy history s arriving (.answer none answer)

theorem Aligned.received {arrival : Arrival} {arriving : List Arrival} (h : Aligned history s)
    (harriving : s.arriving = arrival :: arriving) : Received lossy history s arriving arrival := by
  have hmem : arrival ∈ s.arriving := harriving ▸ mem_cons_self
  have hbuffered := h.buffered arrival hmem
  have hpending := h.pending
  rw [harriving] at hpending
  cases arrival with
  | message msg order =>
    have ⟨received, hmessage⟩ := @handleFrame_message lossy s.client _ _ hbuffered
    exact .message hmessage
  | answer request answer =>
    cases request with
    | some request =>
      have ⟨hanswered, hsuits⟩ := h.answered request answer hmem
      exact .own hanswered hpending (handleFrame_answer hpending hsuits hbuffered)
    | none =>
      obtain ⟨code, message, rfl⟩ := h.stray answer hmem
      cases hclient : s.client.pending with
      | nil => exact .emitted hclient (handleFrame_stray hclient hbuffered)
      | cons first rest => exact .foreign hclient (handleFrame_answer hclient trivial hbuffered)

theorem Aligned.behind {arrival : Arrival} {arriving : List Arrival}
    (h : Aligned history s) (harriving : s.arriving = arrival :: arriving)
    (hpending : client.pending = arriving.filterMap Arrival.request ++ s.sent.filterMap Prod.fst)
    (events : List Event) :
    Aligned (history ++ events) { s with client := client, arriving := arriving } where
  pending := hpending
  sent := h.sent
  buffered other hmem := h.buffered other (harriving ▸ mem_cons_of_mem _ hmem)
  answered request answer hmem :=
    have ⟨hanswered, hsuits⟩ := h.answered request answer (harriving ▸ mem_cons_of_mem _ hmem)
    ⟨mem_append_left _ hanswered, hsuits⟩
  stray answer hmem := h.stray answer (harriving ▸ mem_cons_of_mem _ hmem)

theorem Aligned.receive {arrival : Arrival} {arriving : List Arrival}
    (h : Aligned history s) (harriving : s.arriving = arrival :: arriving)
    (hclear : Clear s) (hframe : s.client.handleFrame lossy arrival.frame = .ok (client, effect)) :
    Aligned (history ++ settledBy arrival effect)
      { s with client := client, arriving := arriving } := by
  have hpending := h.pending
  rw [harriving] at hpending
  cases @Aligned.received lossy _ _ _ _ h harriving with
  | message hmessage =>
    cases hmessage.symm.trans hframe
    exact h.behind harriving hpending _
  | own hanswered hrequest hanswer =>
    cases hanswer.symm.trans hframe
    exact h.behind harriving rfl _
  | emitted hnone hemitted =>
    cases hemitted.symm.trans hframe
    exact h.behind harriving hpending _
  | foreign hsome hanswer =>
    rw [hclear _ _ harriving] at hsome
    cases hsome

theorem Aligned.step (h : Aligned history s)
    (hstep : Step lossy Clear history s events after) : Aligned (history ++ events) after := by
  cases hstep with
  | call c =>
    rw [append_nil]
    exact h.call c
  | serve answer hsent hanswers hbuffered => exact h.serve hsent hanswers hbuffered
  | deliver msg order hbuffered =>
    rw [append_nil]
    exact h.deliver hbuffered
  | receive harriving hclear hframe => exact h.receive harriving hclear hframe

theorem matched_settled_iff {request : PendingRequest} {answers : Option PendingRequest}
    {outcome : Outcome} (h : Matched history) :
    Matched (history ++ [.settled request answers outcome]) ↔ answers = some request ∧
      ∃ answer, .answered request answer ∈ history ∧ outcome = answer.outcome := by
  have hanswered (other : PendingRequest) (answer : Answer) :
      .answered other answer ∈ history ++ [.settled request answers outcome] ↔
        .answered other answer ∈ history := by simp
  simp only [Matched, hanswered, mem_append, mem_singleton]
  constructor
  · intro hall
    exact hall request answers outcome (.inr rfl)
  · rintro hnew other tag result (hold | hsame)
    · exact h other tag result hold
    · cases hsame
      exact hnew

theorem Matched.answeredBy (h : Matched history) (request : Option PendingRequest)
    (answer : Option Answer) : Matched (history ++ answeredBy request answer) := by
  intro other tag result hmem
  have hold : .settled other tag result ∈ history := by
    rcases mem_append.mp hmem with hold | hnew
    · exact hold
    · cases request <;> cases answer <;> simp [Link.answeredBy] at hnew
  have ⟨hown, given, hanswered, hresult⟩ := h other tag result hold
  exact ⟨hown, given, mem_append_left _ hanswered, hresult⟩

/-- The next frame settles a promise with another's answer if and only if it answers an
`ack` or a `nack` and a request is pending. -/
theorem received_matched_iff {arrival : Arrival} {arriving : List Arrival}
    (h : Aligned history s) (hmatched : Matched history)
    (harriving : s.arriving = arrival :: arriving)
    (hframe : s.client.handleFrame lossy arrival.frame = .ok (client, effect)) :
    Matched (history ++ settledBy arrival effect) ↔ Clear s := by
  cases @Aligned.received lossy _ _ _ _ h harriving with
  | message hmessage =>
    cases hmessage.symm.trans hframe
    change Matched (history ++ []) ↔ Clear s
    rw [append_nil]
    refine iff_of_true hmatched fun answer rest hstray => ?_
    rw [harriving] at hstray
    cases hstray
  | @own request answer hanswered hrequest hanswer =>
    cases hanswer.symm.trans hframe
    rw [settledBy, matched_settled_iff hmatched]
    refine iff_of_true ⟨rfl, answer, hanswered, rfl⟩ fun other rest hstray => ?_
    rw [harriving] at hstray
    cases hstray
  | emitted hnone hemitted =>
    cases hemitted.symm.trans hframe
    change Matched (history ++ []) ↔ Clear s
    rw [append_nil]
    exact iff_of_true hmatched fun _ _ _ => hnone
  | foreign hsome hanswer =>
    cases hanswer.symm.trans hframe
    rw [settledBy, matched_settled_iff hmatched]
    refine iff_of_false (fun hown => nomatch hown.1) fun hclear => ?_
    rw [hclear _ _ harriving] at hsome
    cases hsome

theorem Matched.step (h : Matched history) (haligned : Aligned history s)
    (hstep : Step lossy Clear history s events after) : Matched (history ++ events) := by
  cases hstep with
  | call | deliver =>
    rw [append_nil]
    exact h
  | serve answer => exact h.answeredBy _ answer
  | receive harriving hclear hframe => exact (received_matched_iff haligned h harriving hframe).mpr hclear

/-- As long as no answer to an `ack` or a `nack` finds a request pending, every promise
is settled by the answer to its own request, the requests that are pending are those
whose calls or answers are on the way, and every frame is handled. The first such answer
that finds one settles it. -/
theorem Runs.matched (run : Runs lossy Clear connected history s) :
    Matched history ∧
      s.client.pending = s.arriving.filterMap Arrival.request ++ s.sent.filterMap Prod.fst ∧
      ∀ arrival arriving, s.arriving = arrival :: arriving →
        ∃ client effect, s.client.handleFrame lossy arrival.frame = .ok (client, effect) ∧
          (Matched (history ++ settledBy arrival effect) ↔ Clear s) := by
  have ⟨haligned, hmatched⟩ := run.invariant (fun history s => Aligned history s ∧ Matched history)
    ⟨aligned_connected, nofun⟩ fun ⟨haligned, hmatched⟩ hstep =>
      ⟨haligned.step hstep, hmatched.step haligned hstep⟩
  refine ⟨hmatched, haligned.pending, fun arrival arriving harriving => ?_⟩
  have ⟨client, effect, hframe⟩ : ∃ client effect,
      s.client.handleFrame lossy arrival.frame = .ok (client, effect) := by
    cases @Aligned.received lossy _ _ _ _ haligned harriving with
    | message hmessage => exact ⟨_, _, hmessage⟩
    | own _ _ hanswer => exact ⟨_, _, hanswer⟩
    | emitted _ hemitted => exact ⟨_, _, hemitted⟩
    | foreign _ hanswer => exact ⟨_, _, hanswer⟩
  exact ⟨client, effect, hframe, received_matched_iff haligned hmatched harriving hframe⟩

end Steps

def publishOne : Call := .publish "jobs" [1] none none none
def publishTwo : Call := .publish "jobs" [2] none none none

def accepted (id : String) : Answer := .response 0x02 (Protocol.marshal (Protocol.PublishResponse.fields ⟨id⟩))

def unknownMessage : Answer := .error 4 "message not found"

theorem matched_published : ∃ history s, Runs (fun _ => "") Clear connected history s ∧
    .settled ⟨0, 0x02⟩ (some ⟨0, 0x02⟩) (accepted "a").outcome ∈ history ∧ Matched history := by
  have called : Runs (fun _ => "") Clear connected _ _ := Run.start.next (.call publishOne)
  have served := called.next (.serve (some (accepted "a")) rfl (.response _ rfl) fun given hgiven => by
    cases hgiven
    decide +kernel)
  have received := served.next (.receive rfl (fun _ _ h => by cases h)
    (handleFrame_answer rfl ⟨rfl, by decide⟩ (by decide +kernel)))
  exact ⟨_, _, received, List.mem_append_right _ List.mem_cons_self, (Runs.matched received).1⟩

/-- The answer to the `ack` rejects the first publish, whose answer resolves the second. -/
theorem ack_misattributes : ∃ history s, Runs (fun _ => "") (fun _ => True) connected history s ∧
    .settled ⟨0, 0x02⟩ none (.brokerError 4 "message not found") ∈ history ∧
    .settled ⟨1, 0x02⟩ (some ⟨0, 0x02⟩) (.resolved (accepted "a").frame) ∈ history := by
  have calls : Runs (fun _ => "") (fun _ => True) connected _ _ :=
    ((Run.start.next (.call (.ack "x"))).next (.call publishOne)).next (.call publishTwo)
  have refused := calls.next (.serve (some unknownMessage) rfl (.error _ _) fun given hgiven => by
    cases hgiven
    decide +kernel)
  have answered := refused.next (.serve (some (accepted "a")) rfl (.response _ rfl)
    fun given hgiven => by
      cases hgiven
      decide +kernel)
  have first := answered.next (.receive rfl trivial
    (handleFrame_answer rfl trivial (by decide +kernel)))
  have second := first.next (.receive rfl trivial
    (handleFrame_answer rfl ⟨rfl, by decide⟩ (by decide +kernel)))
  exact ⟨_, _, second, List.mem_append_left _ (List.mem_append_right _ List.mem_cons_self),
    List.mem_append_right _ List.mem_cons_self⟩

end Link

end QwerQ.TypeScript
