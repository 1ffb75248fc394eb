import QwerQ.Protocol.PublishResponse
import QwerQ.Server.Sizes

/-! A publish of the Go client, there and back. The client writes the request by hand and reads
the answer by hand; in between the server uses the generic decoder. -/
namespace QwerQ.Protocol
open Protobuf

def opPublish : OpCode := 0x01
def opPublishAck : OpCode := 0x02
def opError : OpCode := 0x07

def ErrorResponse.unmarshal (data : Bytes) : Option ErrorResponse := do
  let fields ← decode data
  return ⟨getUint32 1 fields, ← getString 2 fields⟩

def answerPayload : Except ErrorResponse String → Bytes
  | .ok id => encodePublishResponsePayload id
  | .error err => marshal err.fields

/-- `handlePublish` on the payload of a frame; `handle` is what it does once the request is read. -/
def handlePublishFrame (handle : QwerQ.PublishRequest → Except ErrorResponse String) (data : Bytes) :
    Go Bytes :=
  let result : Except ErrorResponse String := match PublishRequest.unmarshal data with
    | none => .error ⟨2, "invalid request"⟩
    | some req => handle req.read
  match result with
  | .ok _ => .ok (writeFrame opPublishAck (answerPayload result))
  | .error _ => encodeFrame opError (answerPayload result)

/-- What the server writes in answer; a frame that cannot be read ends the connection. -/
def servePublish (maxMessageSize : UInt32) (handle : QwerQ.PublishRequest → Except ErrorResponse String)
    (r : Bytes) : Go Bytes :=
  match (decodeFrame maxMessageSize r).1 with
  | .error _ => .ok []
  | .ok frame => handlePublishFrame handle frame.payload

inductive PublishErr where
  | frame (err : FrameErr)
  | broker (err : ErrorResponse)
  | unmarshal

def readPublishResponse (resp : Frame) : Go (Except PublishErr Bytes) := do
  if resp.opCode = opError then
    return .error (.broker ((ErrorResponse.unmarshal resp.payload).getD ⟨0, ""⟩))
  let (messageID, ok) ← decodePublishResponsePayload resp.payload
  if ok then return .ok messageID
  match PublishResponse.unmarshal resp.payload with
  | none => return .error .unmarshal
  | some result => return .ok (utf8 result.messageId)

/-- `Client.Publish`; `conn` is what the server answers to the bytes written, and `unread` what
it has written before. The client takes the next frame, whatever it answers. -/
def publish (maxMessageSize : UInt32) (unread : Bytes) (conn : Bytes → Go Bytes) (queue : String)
    (payload : Bytes) : Go (Except PublishErr Bytes) := do
  let r ← conn (writeFrame opPublish (encodeSimplePublishRequestPayload queue payload))
  match (decodeFrame maxMessageSize (unread ++ r)).1 with
  | .error err => return .error (.frame err)
  | .ok resp => readPublishResponse resp

theorem ErrorResponse.unmarshal_marshal (resp : ErrorResponse)
    (h : (marshal resp.fields).length < 2 ^ 64) : unmarshal (marshal resp.fields) = some resp := by
  have hcode : getUint32 1 resp.fields = resp.code := getUint32_of (by simp [ErrorResponse.fields])
  have hmessage : getString 2 resp.fields = some resp.message :=
    getString_of (by simp [ErrorResponse.fields])
  refine read_plain (by simp [ErrorResponse.fields, maxNumber]) h ?_
  rw [hcode, hmessage]
  rfl

section Exchange
variable {limit serverLimit clientLimit : UInt32} {queue : String} {payload r : Bytes} {op : OpCode}
  {handle : QwerQ.PublishRequest → Except ErrorResponse String}

theorem servePublish_frame (h : Fits limit payload) :
    servePublish limit handle (writeFrame op payload) = handlePublishFrame handle payload := by
  have hframe := decodeFrame_writeFrame op [] h
  rw [List.append_nil] at hframe
  rw [servePublish, hframe]

theorem publish_frame {conn : Bytes → Go Bytes} {data unread later : Bytes} (h : Fits limit data)
    (hconn : conn (writeFrame opPublish (encodeSimplePublishRequestPayload queue payload)) = .ok r)
    (hnext : unread ++ r = writeFrame op data ++ later) :
    publish limit unread conn queue payload = readPublishResponse ⟨protocolVersion, op, data⟩ := by
  rw [publish, hconn]
  simp only [bind, Except.bind, hnext, decodeFrame_writeFrame op later h]

def answerOp : Except ErrorResponse String → OpCode
  | .ok _ => opPublishAck
  | .error _ => opError

theorem servePublish_answers (handle : QwerQ.PublishRequest → Except ErrorResponse String)
    (hrequest : Fits serverLimit (encodeSimplePublishRequestPayload queue payload))
    (hanswer : Fits clientLimit (answerPayload (handle ⟨queue, payload, ∅, "", "", ""⟩))) :
    servePublish serverLimit handle
      (writeFrame opPublish (encodeSimplePublishRequestPayload queue payload)) =
      .ok (writeFrame (answerOp (handle ⟨queue, payload, ∅, "", "", ""⟩))
        (answerPayload (handle ⟨queue, payload, ∅, "", "", ""⟩))) := by
  have hmax : maxFrameSize.toNat = 16777216 := rfl
  have hsent := hrequest.frame
  have hlength := hanswer.frame
  have hread := unmarshal_simplePublish (by omega : (encodeSimplePublishRequestPayload queue payload).length < _)
  have hrequested : (⟨queue, payload, ∅, none, none, ""⟩ : PublishRequest).read =
      ⟨queue, payload, ∅, "", "", ""⟩ := rfl
  rw [servePublish_frame hrequest, handlePublishFrame, hread]
  dsimp only
  rw [hrequested]
  generalize handle ⟨queue, payload, ∅, "", "", ""⟩ = result at hlength ⊢
  cases result with
  | ok id => rfl
  | error err => exact encodeFrame_eq_writeFrame opError hlength

theorem readPublishResponse_answer {result : Except ErrorResponse String}
    (h : Fits limit (answerPayload result)) :
    readPublishResponse ⟨protocolVersion, answerOp result, answerPayload result⟩ =
      .ok ((result.map utf8).mapError .broker) := by
  have hmax : maxFrameSize.toNat = 16777216 := rfl
  have hlength := h.frame
  cases result with
  | ok id =>
    have hid := decodePublishResponsePayload_announced
      (announced_encode (by exact hlength.trans_lt (by omega) : (encodePublishResponseBytes (utf8 id)).length < _))
    have hack : answerOp (.ok id) ≠ opError := show opPublishAck ≠ opError by decide
    rw [readPublishResponse, if_neg hack]
    simp only [answerPayload, encodePublishResponsePayload_utf8, hid]
    rfl
  | error err =>
    have herr := ErrorResponse.unmarshal_marshal err (hlength.trans_lt (by omega))
    rw [readPublishResponse]
    simp only [answerOp, answerPayload, herr, if_true]
    rfl

/-- Where nothing else is to be read, the caller is told what the handler answered to the very
request: the id, byte for byte, or the error with its code and text. Where the server has
written a frame that is not read yet, the caller is told what that frame says. -/
theorem publish_handled (handle : QwerQ.PublishRequest → Except ErrorResponse String)
    (hrequest : Fits serverLimit (encodeSimplePublishRequestPayload queue payload))
    (hanswer : Fits clientLimit (answerPayload (handle ⟨queue, payload, ∅, "", "", ""⟩))) :
    publish clientLimit [] (servePublish serverLimit handle) queue payload =
      .ok (((handle ⟨queue, payload, ∅, "", "", ""⟩).map utf8).mapError .broker) ∧
    ∀ earlier data later, Fits clientLimit data →
      publish clientLimit (writeFrame earlier data ++ later) (servePublish serverLimit handle) queue
        payload = readPublishResponse ⟨protocolVersion, earlier, data⟩ := by
  have hserve := servePublish_answers handle hrequest hanswer
  constructor
  · rw [publish_frame hanswer hserve (List.append_nil _).symm, readPublishResponse_answer hanswer]
  · intro earlier data later hfits
    exact publish_frame hfits hserve (List.append_assoc ..)

end Exchange

theorem publish_handled_refused :
    publish 100 [] (servePublish 6 fun _ => .error ⟨9, "not leader"⟩) "q" [7] =
      .ok (.error (.broker ⟨9, "not leader"⟩)) :=
  (publish_handled _ ⟨by decide, by decide⟩ ⟨by decide, by decide⟩).1

end QwerQ.Protocol
