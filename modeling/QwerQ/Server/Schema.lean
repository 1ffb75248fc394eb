import QwerQ.Replicator

/-! The schemas of queues, and the check of a publish against them. What a descriptor and a
payload mean is up to the protobuf library. -/
namespace QwerQ
open List KeyedMap Server

inductive SchemaErr where
  | invalidDescriptor
  | messageTypeNotFound
  | validationFailed (text : String)

def SchemaErr.message : SchemaErr → String
  | .invalidDescriptor => "invalid descriptor"
  | .messageTypeNotFound => "message type not found in descriptor"
  | .validationFailed text => "message validation failed: " ++ text

/-- The library's: the files of a descriptor set, the message type of a name in them, and
the error of a payload that is no such message. -/
structure Reflection (φ δ : Type) where
  newFiles : List UInt8 → Option φ
  findMessage : φ → String → Option δ
  unmarshal : δ → List UInt8 → Option String

structure Schema (δ : Type) where
  queue : String
  messageType : String
  descriptor : List UInt8
  version : UInt32
  createdAt : Time
  msgDesc : δ

abbrev SchemaRegistry (δ : Type) := KeyedMap (Schema.queue : Schema δ → String)

inductive SchemaMode where
  | permissive
  | strict
  deriving DecidableEq

variable {φ δ : Type} (lib : Reflection φ δ)

def parseDescriptor (data : List UInt8) (messageType : String) : Except SchemaErr δ :=
  match lib.newFiles data with
  | none => .error .invalidDescriptor
  | some files =>
      match lib.findMessage files messageType with
      | none => .error .messageTypeNotFound
      | some msgDesc => .ok msgDesc

namespace SchemaRegistry

def register (queue : String) (descriptor : List UInt8) (messageType : String) (now : Time)
    (r : SchemaRegistry δ) : Except SchemaErr UInt32 × SchemaRegistry δ :=
  match parseDescriptor lib descriptor messageType with
  | .error err => (.error err, r)
  | .ok msgDesc =>
      let version := match r.find? queue with
        | some existing => existing.version + 1
        | none => 1
      (.ok version, r.insert ⟨queue, messageType, descriptor, version, now, msgDesc⟩)

def validate (queue : String) (payload : List UInt8) (r : SchemaRegistry δ) : Option SchemaErr :=
  match r.find? queue with
  | none => none
  | some schema => (lib.unmarshal schema.msgDesc payload).map .validationFailed

end SchemaRegistry

/-- The whole of `handlePublish`. The registry is read twice, and others may register
between the reads: `seen` is what `Get` finds, `current` what `Validate` finds. -/
def handlePublishChecked (mode : SchemaMode) (seen current : SchemaRegistry δ)
    (replicator : Option Replicator) (req : PublishRequest) (env : PublishEnv) :
    Prog (Except Response String) :=
  if mode = .strict ∧ seen.contains req.queue = false then
    return .error (.error 7 "schema required for queue")
  else
    match SchemaRegistry.validate lib req.queue req.payload current with
    | some err => return .error (.error 5 ("schema validation failed: " ++ err.message))
    | none => handlePublishWith replicator req env

/-- A registration by anyone; one that is refused is no event. -/
inductive Registers : List (Schema δ) → SchemaRegistry δ → List (Schema δ) → SchemaRegistry δ → Prop
  | refused {history r r' err} (queue descriptor messageType now) :
      SchemaRegistry.register lib queue descriptor messageType now r = (.error err, r') →
      Registers history r [] r'
  | stored {history r r' version schema} (queue descriptor messageType now) :
      SchemaRegistry.register lib queue descriptor messageType now r = (.ok version, r') →
      r'.find? queue = some schema → Registers history r [schema] r'

def ofQueue (queue : String) (history : List (Schema δ)) : List (Schema δ) :=
  history.filter fun schema => schema.queue = queue

/-- The registry holds the last schema of each queue, numbered by how many there were. -/
def Latest (history : List (Schema δ)) (r : SchemaRegistry δ) : Prop :=
  ∀ queue, r.find? queue = (ofQueue queue history).getLast? ∧
    ∀ schema ∈ r.find? queue, schema.version = UInt32.ofNat (ofQueue queue history).length

variable {lib} {history later : List (Schema δ)} {seen current : SchemaRegistry δ}

theorem Latest.insert (h : Latest history seen) {schema : Schema δ}
    (hversion : schema.version = UInt32.ofNat ((ofQueue schema.queue history).length + 1)) :
    Latest (history ++ [schema]) (seen.insert schema) := by
  intro queue
  rw [ofQueue, filter_append]
  by_cases hqueue : schema.queue = queue
  · subst hqueue
    rw [find?_insert_self, filter_cons_of_pos (by simp), filter_nil, getLast?_concat,
      length_append, length_singleton]
    refine ⟨rfl, ?_⟩
    rintro _ ⟨⟩
    exact hversion
  · rw [find?_insert_of_ne _ (Ne.symm hqueue), filter_cons_of_neg (by simpa using hqueue),
      filter_nil, append_nil]
    exact h queue

theorem Latest.step {events : List (Schema δ)} (h : Latest history seen)
    (taken : Registers lib later seen events current) : Latest (history ++ events) current := by
  cases taken with
  | refused queue descriptor messageType now hregister =>
    unfold SchemaRegistry.register at hregister
    split at hregister
    · cases hregister
      rwa [append_nil]
    · cases hregister
  | stored queue descriptor messageType now hregister hfind =>
    unfold SchemaRegistry.register at hregister
    split at hregister
    · cases hregister
    · cases hregister
      rw [find?_insert_self] at hfind
      cases hfind
      refine h.insert ?_
      have hqueue := h queue
      cases hold : seen.find? queue with
      | none =>
        rw [hold, eq_comm, getLast?_eq_none_iff] at hqueue
        rw [hqueue.1]
        rfl
      | some existing =>
        rw [UInt32.ofNat_add, ← hqueue.2 existing hold]
        rfl

/-- Whatever is registered before a publish and between its two reads of the registry, the
publish is refused in strict mode if nothing had been registered for the queue, and is
otherwise checked against the last schema registered by then, whose version is the number
of registrations. Only if it passes does it reach the broker. -/
theorem handlePublish_checked (before : Run (Registers lib) ∅ history seen)
    (between : Run (Registers lib) seen later current) (mode : SchemaMode)
    (replicator : Option Replicator) (req : PublishRequest) (env : PublishEnv) :
    (handlePublishChecked lib mode seen current replicator req env =
      if mode = .strict ∧ ofQueue req.queue history = [] then
        return .error (.error 7 "schema required for queue")
      else
        ((ofQueue req.queue (history ++ later)).getLast?.bind (lib.unmarshal ·.msgDesc req.payload)).elim
          (handlePublishWith replicator req env)
          fun text => return .error (.error 5
            ("schema validation failed: " ++ ("message validation failed: " ++ text)))) ∧
    ∀ schema ∈ (ofQueue req.queue (history ++ later)).getLast?,
      schema.version = UInt32.ofNat (ofQueue req.queue (history ++ later)).length := by
  have hseen : Latest history seen := before.invariant Latest (fun _ => ⟨rfl, by simp⟩) Latest.step
  have hcurrent : Latest (history ++ later) current := by
    refine between.invariant (fun later => Latest (history ++ later)) (by simpa using hseen) ?_
    intro _ _ _ _ h taken
    rw [← append_assoc]
    exact h.step taken
  have hfind := hcurrent req.queue
  refine ⟨?_, hfind.1 ▸ hfind.2⟩
  rw [handlePublishChecked, KeyedMap.contains, (hseen req.queue).1, SchemaRegistry.validate, hfind.1]
  simp only [Option.isSome_eq_false_iff, Option.isNone_iff_eq_none, getLast?_eq_none_iff]
  congr 1
  cases (ofQueue req.queue (history ++ later)).getLast? with
  | none => rfl
  | some schema =>
    rw [Option.bind_some]
    dsimp only
    cases lib.unmarshal schema.msgDesc req.payload with
    | none => rfl
    | some text => rfl

def emptyType : List UInt8 := [10, 8, 10, 1, 116, 34, 3, 10, 1, 84]

/-- What the library answers about that descriptor, and about a payload with no fields or
with a broken one. -/
def emptyOnly : Reflection Unit Unit where
  newFiles data := if data = emptyType then some () else none
  findMessage _ name := if name = "T" then some () else none
  unmarshal _ payload := if payload = [] then none else some "cannot parse invalid wire-format data"

/-- A schema registered between the two reads is too late for a strict publish. -/
theorem handlePublish_checked_late :
    handlePublishChecked emptyOnly .strict ∅ (SchemaRegistry.register emptyOnly "q" emptyType "T" 0 ∅).2
      none ⟨"q", [1], ∅, "", "", ""⟩ ⟨0, 0, "", 0, ⟨⟨0, []⟩, fun _ => ⟨0, []⟩⟩⟩ =
      return .error (.error 7 "schema required for queue") :=
  (handlePublish_checked .start (.next .start (.stored "q" emptyType "T" 0 rfl rfl)) ..).1

end QwerQ
