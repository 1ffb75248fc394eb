import QwerQ.Server
import QwerQ.Library.Channel

/-! The calls of one call manager, which wait for their replies, and the goroutine that
routes the replies. They share the map of the waiting calls; each call has a channel of its
own. The reply queue may hold anything, and a timeout may fire at any time, so both are left
open here. -/
namespace QwerQ
open List Function

/-- A missing header reads as the empty string. -/
def Message.correlationID (msg : Message) : String :=
  (msg.headers.find? "correlation_id").elim "" Prod.snd

inductive CallResult where
  | reply (payload : List UInt8) (headers : StringMap)
  | failed (err : Err)
  | timeout
  deriving DecidableEq

def CallResult.of (published : Except Err α) (reply : Option (List UInt8 × StringMap)) : CallResult :=
  match published, reply with
  | .error err, _ => .failed err
  | .ok _, some (payload, headers) => .reply payload headers
  | .ok _, none => .timeout

def CallResult.response : CallResult → Response
  | .reply payload headers => .callResponse payload headers
  | .failed err => .error 3 err.message
  | .timeout => .error 8 "call timeout"

theorem callWith_eq (manager : CallManager) (req : CallRequest) (env : CallEnv) (state : ConnState) :
    Server.callWith manager req env state = (do
      let published ← handlePublish (Server.callPublish req manager.replyQ env.correlationID) env.publish
      return ({ state with callManager := some manager },
        some (CallResult.of published env.reply).response)) := by
  unfold Server.callWith
  dsimp only
  congr 1
  funext published
  cases published with
  | error err => rfl
  | ok id => cases env.reply <;> rfl

/-- Where `Call` stands: before it has registered its channel, before the request is
published, in the select, before the deferred deletion, and at the end. -/
inductive CallPosition where
  | unborn
  | publishing
  | waiting
  | leaving (result : CallResult)
  | returned (result : CallResult)
  deriving DecidableEq

/-- Where the goroutine of `listenForReplies` stands: waiting for a message, then through
`handleReply`, until it has returned. -/
inductive ReplyListener (κ : Type u) where
  | idle
  | routing (msg : Message)
  | sending (call : κ) (msg : Message)
  | closing (call : κ) (msg : Message)
  | acking (msg : Message)
  | gone
  deriving DecidableEq

inductive Shutdown where
  | none
  | announced
  | finished
  deriving DecidableEq, Repr

/-- The calls of a manager. Each call is known by its own name, under which its channel is
found; `pending` is nil once the manager is closed. -/
structure Calls (κ : Type u) where
  pending : Option (KeyedMap (Prod.fst : String × κ → String))
  channel : κ → Channel Message
  call : κ → CallPosition
  listener : ReplyListener κ
  shutdown : Shutdown

inductive CallMove (κ : Type u) where
  | register (call : κ)
  | publish (call : κ) (result : Option Err)
  | receive (call : κ)
  | timeout (call : κ)
  | cleanup (call : κ)
  | take (msg : Message)
  | route
  | send
  | closeReply
  | ack
  | quit
  | closeDone
  | closePending (order : List String)

inductive CallEvent (κ : Type u) where
  | received (msg : Message)
  | routed (call : κ) (msg : Message)
  | returned (call : κ) (result : CallResult)
  deriving DecidableEq

/-- The panics that this part of the source can run into: a fault of a reply channel, a
second close of the manager, a write to the nil map, and a reply that is nil. -/
inductive CallPanic where
  | replyChannel (fault : Channel.Fault)
  | closedTwice
  | nilMap
  | nilReply
  deriving DecidableEq, Repr

def CallEvent.returns [DecidableEq κ] (call : κ) : CallEvent κ → Bool
  | .returned other _ => other = call
  | _ => false

namespace Calls
variable {κ : Type u} [DecidableEq κ]

def new : Calls κ := ⟨some ∅, fun _ => .new 1, fun _ => .unborn, .idle, .none⟩

def entries (s : Calls κ) : List (String × κ) := s.pending.elim [] KeyedMap.entries

def goTo (s : Calls κ) (call : κ) (position : CallPosition) : Calls κ :=
  { s with call := Function.update s.call call position }

def withChannel (s : Calls κ) (call : κ) (ch : Channel Message) : Calls κ :=
  { s with channel := Function.update s.channel call ch }

def without (s : Calls κ) (id : String) : Calls κ :=
  { s with pending := s.pending.map fun pending => pending.erase id }

/-- One step, with what it adds to the history; nothing if the step is not possible now.
The ids are those that the calls have drawn. -/
def move (ids : κ → String) (s : Calls κ) :
    CallMove κ → Except CallPanic (Option (List (CallEvent κ) × Calls κ))
  | .register call =>
      match s.call call, s.pending with
      | .unborn, some pending =>
          .ok (some ([], { s with
            pending := some (pending.insert (ids call, call))
            channel := Function.update s.channel call (.new 1)
            call := Function.update s.call call .publishing }))
      | .unborn, none => .error .nilMap
      | _, _ => .ok none
  | .publish call result =>
      match s.call call, result with
      | .publishing, some err => .ok (some ([], s.goTo call (.leaving (.failed err))))
      | .publishing, none => .ok (some ([], s.goTo call .waiting))
      | _, _ => .ok none
  | .receive call =>
      match s.call call, (s.channel call).receive with
      | .waiting, some (some msg, ch) =>
          .ok (some ([], (s.withChannel call ch).goTo call (.leaving (.reply msg.payload msg.headers))))
      | .waiting, some (none, _) => .error .nilReply
      | _, _ => .ok none
  | .timeout call =>
      match s.call call with
      | .waiting => .ok (some ([], s.goTo call (.leaving .timeout)))
      | _ => .ok none
  | .cleanup call =>
      match s.call call with
      | .leaving result =>
          .ok (some ([.returned call result], (s.without (ids call)).goTo call (.returned result)))
      | _ => .ok none
  | .take msg =>
      match s.listener with
      | .idle => .ok (some ([.received msg], { s with listener := .routing msg }))
      | _ => .ok none
  | .route =>
      match s.listener with
      | .routing msg =>
          if msg.correlationID = "" then .ok (some ([], { s with listener := .idle }))
          else
            match s.pending.bind fun pending => pending.find? msg.correlationID with
            | some (_, call) =>
                .ok (some ([.routed call msg],
                  { s.without msg.correlationID with listener := .sending call msg }))
            | none => .ok (some ([], { s with listener := .acking msg }))
      | _ => .ok none
  | .send =>
      match s.listener with
      | .sending call msg =>
          if (s.channel call).ready then
            match (s.channel call).send msg with
            | .ok ch => .ok (some ([], { s.withChannel call ch with listener := .closing call msg }))
            | .error fault => .error (.replyChannel fault)
          else .ok (some ([], { s with listener := .closing call msg }))
      | _ => .ok none
  | .closeReply =>
      match s.listener with
      | .closing call msg =>
          match (s.channel call).close with
          | .ok ch => .ok (some ([], { s.withChannel call ch with listener := .acking msg }))
          | .error fault => .error (.replyChannel fault)
      | _ => .ok none
  | .ack =>
      match s.listener with
      | .acking _ => .ok (some ([], { s with listener := .idle }))
      | _ => .ok none
  | .quit =>
      -- the manager is closed, or the queue has closed the consumer's channel
      match s.listener with
      | .idle => .ok (some ([], { s with listener := .gone }))
      | _ => .ok none
  | .closeDone =>
      match s.shutdown with
      | .none => .ok (some ([], { s with shutdown := .announced }))
      | _ => .error .closedTwice
  | .closePending order =>
      match s.shutdown, s.pending with
      | .announced, some pending =>
          match Channel.closeAll s.channel ((pending.inOrder order).map Prod.snd) with
          | .ok channel =>
              .ok (some ([], { s with channel := channel, pending := none, shutdown := .finished }))
          | .error fault => .error (.replyChannel fault)
      | _, _ => .ok none

def Step (ids : κ → String) (_ : List (CallEvent κ)) (s : Calls κ) (events : List (CallEvent κ))
    (s' : Calls κ) : Prop := ∃ move, s.move ids move = .ok (some (events, s'))

def Runs (ids : κ → String) (history : List (CallEvent κ)) (s : Calls κ) : Prop :=
  Run (Step ids) new history s

/-- The moves in turn; one that is not possible when its turn comes is passed over. -/
def play (ids : κ → String) :
    List (CallMove κ) → List (CallEvent κ) → Calls κ → List (CallEvent κ) × Calls κ
  | [], history, s => (history, s)
  | move :: rest, history, s =>
      match s.move ids move with
      | .ok (some (events, s')) => play ids rest (history ++ events) s'
      | _ => play ids rest history s

section Fields
variable (s : Calls κ) (call : κ) (position : CallPosition) (ch : Channel Message) (id : String)

omit [DecidableEq κ] in
theorem mem_entries_without {entry : String × κ} :
    entry ∈ (s.without id).entries ↔ entry ∈ s.entries ∧ entry.1 ≠ id := by
  unfold entries without
  cases s.pending with
  | none => simp
  | some pending => simp [KeyedMap.entries_erase]

omit [DecidableEq κ] in
theorem entries_of_pending {s : Calls κ} {pending} (h : s.pending = some pending) :
    s.entries = pending.entries := by
  rw [entries, h]
  rfl

theorem update_or {f : κ → α} {changed : κ → Prop} {value : α} (h : changed call) (other : κ) :
    Function.update f call value other = f other ∨ changed other := by
  by_cases hsame : other = call
  · exact .inr (hsame ▸ h)
  · exact .inl (update_of_ne hsame _ _)

end Fields

/-- The listener has taken the channel of the call out of the map and not closed it yet. -/
def Holds (s : Calls κ) (call : κ) : Prop :=
  ∃ msg, s.listener = .sending call msg ∨ s.listener = .closing call msg

/-- What a step of a call, of the listener or of `Close` does. -/
inductive Moved (ids : κ → String) (s : Calls κ) : List (CallEvent κ) → Calls κ → Prop where
  | registered {call : κ} {pending} (hcall : s.call call = .unborn)
      (hpending : s.pending = some pending) : Moved ids s [] { s with
        pending := some (pending.insert (ids call, call))
        channel := Function.update s.channel call (.new 1)
        call := Function.update s.call call .publishing }
  | went {call : κ} {position : CallPosition} (hcall : s.call call ≠ .unborn)
      (hreturned : ∀ result, s.call call ≠ .returned result)
      (hposition : position = .waiting ∨ (∃ err, position = .leaving (.failed err)) ∨
        position = .leaving .timeout) : Moved ids s [] (s.goTo call position)
  | received {call : κ} {msg : Message} {ch : Channel Message} (hcall : s.call call = .waiting)
      (hreceive : (s.channel call).receive = some (some msg, ch)) : Moved ids s []
        ((s.withChannel call ch).goTo call (.leaving (.reply msg.payload msg.headers)))
  | returned {call : κ} {result : CallResult} (hcall : s.call call = .leaving result) :
      Moved ids s [.returned call result] ((s.without (ids call)).goTo call (.returned result))
  | took {msg : Message} (hlistener : s.listener = .idle) :
      Moved ids s [.received msg] { s with listener := .routing msg }
  | turned {listener : ReplyListener κ} (hfree : ∀ call, ¬s.Holds call)
      (hlistener : listener = .idle ∨ (∃ msg, listener = .acking msg) ∨ listener = .gone) :
      Moved ids s [] { s with listener := listener }
  | routed {call : κ} {msg : Message} (hlistener : s.listener = .routing msg)
      (hentry : (msg.correlationID, call) ∈ s.entries) :
      Moved ids s [.routed call msg]
        { s.without msg.correlationID with listener := .sending call msg }
  | sent {call : κ} {msg : Message} {ch : Channel Message} (hlistener : s.listener = .sending call msg)
      (hsend : (s.channel call).send msg = .ok ch) :
      Moved ids s [] { s.withChannel call ch with listener := .closing call msg }
  | passed {call : κ} {msg : Message} (hlistener : s.listener = .sending call msg) :
      Moved ids s [] { s with listener := .closing call msg }
  | closed {call : κ} {msg : Message} {ch : Channel Message}
      (hlistener : s.listener = .closing call msg) (hclose : (s.channel call).close = .ok ch) :
      Moved ids s [] { s.withChannel call ch with listener := .acking msg }
  | announced : Moved ids s [] { s with shutdown := .announced }
  | finished {pending} {order : List String} {channel : κ → Channel Message}
      (hpending : s.pending = some pending)
      (hclose : Channel.closeAll s.channel ((pending.inOrder order).map Prod.snd) = .ok channel) :
      Moved ids s [] { s with channel := channel, pending := none, shutdown := .finished }

theorem moved_of_move {ids : κ → String} {s s' : Calls κ} {events : List (CallEvent κ)}
    {move : CallMove κ} (h : s.move ids move = .ok (some (events, s'))) : Moved ids s events s' := by
  cases move <;> simp only [Calls.move] at h
  case register call =>
    split at h <;> cases h
    exact .registered ‹_› ‹_›
  case publish call result =>
    split at h <;> cases h
    · rename_i hcall
      exact .went (by simp [hcall]) (by simp [hcall]) (.inr (.inl ⟨_, rfl⟩))
    · rename_i hcall
      exact .went (by simp [hcall]) (by simp [hcall]) (.inl rfl)
  case receive call =>
    split at h <;> cases h
    exact .received ‹_› ‹_›
  case timeout call =>
    split at h <;> cases h
    rename_i hcall
    exact .went (by simp [hcall]) (by simp [hcall]) (.inr (.inr rfl))
  case cleanup call =>
    split at h <;> cases h
    exact .returned ‹_›
  case take msg =>
    split at h <;> cases h
    exact .took ‹_›
  case route =>
    split at h
    · rename_i msg hlistener
      split_ifs at h
      · cases h
        exact .turned (by simp [Holds, hlistener]) (.inl rfl)
      · split at h <;> cases h
        · rename_i id call hfind
          obtain ⟨pending, hpending, hfind⟩ := Option.bind_eq_some_iff.mp hfind
          obtain ⟨hmem, rfl⟩ := KeyedMap.find?_eq_some_iff.mp hfind
          refine .routed hlistener ?_
          rw [entries, hpending]
          exact hmem
        · exact .turned (by simp [Holds, hlistener]) (.inr (.inl ⟨_, rfl⟩))
    · cases h
  case send =>
    split at h
    · split_ifs at h
      · split at h <;> cases h
        exact .sent ‹_› ‹_›
      · cases h
        exact .passed ‹_›
    · cases h
  case closeReply =>
    split at h
    · split at h <;> cases h
      exact .closed ‹_› ‹_›
    · cases h
  case ack =>
    split at h <;> cases h
    rename_i hlistener
    exact .turned (by simp [Holds, hlistener]) (.inl rfl)
  case quit =>
    split at h <;> cases h
    rename_i hlistener
    exact .turned (by simp [Holds, hlistener]) (.inr (.inr rfl))
  case closeDone =>
    split at h <;> cases h
    exact .announced
  case closePending order =>
    split at h
    · split at h <;> cases h
      exact .finished ‹_› ‹_›
    · cases h

/-- Who may still close a channel: a waiting call's channel is as it was made, and a channel
that the listener holds is open and in the map no more. -/
structure Custody (ids : κ → String) (s : Calls κ) : Prop where
  keyed : ∀ entry ∈ s.entries, ids entry.2 = entry.1
  listed : ∀ entry ∈ s.entries, s.channel entry.2 = .new 1 ∧ s.call entry.2 ≠ .unborn
  held : ∀ call, s.Holds call → (s.channel call).closed = false ∧ s.call call ≠ .unborn ∧
    ∀ entry ∈ s.entries, entry.2 ≠ call
  sending : ∀ call msg, s.listener = .sending call msg → s.channel call = .new 1

section Custody
variable {ids : κ → String} {s s' : Calls κ} {events : List (CallEvent κ)}

omit [DecidableEq κ] in
theorem custody_new (ids : κ → String) : Custody ids new where
  keyed := by simp [entries, new]
  listed := by simp [entries, new]
  held := by simp [Holds, new]
  sending := by simp [new]

omit [DecidableEq κ] in
theorem Custody.nodup (h : Custody ids s) {pending} (hpending : s.pending = some pending)
    (order : List String) : ((pending.inOrder order).map Prod.snd).Nodup := by
  refine List.Nodup.of_map ids ?_
  have hkeys : ((pending.inOrder order).map Prod.snd).map ids = (pending.inOrder order).map Prod.fst := by
    rw [map_map]
    refine map_congr_left fun entry hmem => h.keyed entry ?_
    rw [entries_of_pending hpending]
    exact KeyedMap.mem_inOrder.mp hmem
  rw [hkeys]
  exact pending.inOrder_nodup order

theorem Custody.closeAll (h : Custody ids s) {pending} (hpending : s.pending = some pending)
    (order : List String) : Channel.closeAll s.channel ((pending.inOrder order).map Prod.snd) =
      .ok fun call => if call ∈ (pending.inOrder order).map Prod.snd then
        { s.channel call with closed := true } else s.channel call := by
  refine Channel.closeAll_of_open (h.nodup hpending order) fun call hcall => ?_
  obtain ⟨entry, hmem, rfl⟩ := mem_map.mp hcall
  rw [(h.listed entry (entries_of_pending hpending ▸ KeyedMap.mem_inOrder.mp hmem)).1]
  rfl

/-- No step sends on a reply channel, or closes one, that is closed. -/
theorem Custody.no_fault (h : Custody ids s) (move : CallMove κ) (fault : Channel.Fault) :
    s.move ids move ≠ .error (.replyChannel fault) := by
  intro hfault
  cases move <;> simp only [Calls.move] at hfault
  case send =>
    split at hfault
    · rename_i call msg hlistener
      have hopen := (h.held call ⟨msg, .inl hlistener⟩).1
      rw [Channel.send_of_open hopen] at hfault
      split at hfault <;> cases hfault
    · cases hfault
  case closeReply =>
    split at hfault
    · rename_i call msg hlistener
      have hopen := (h.held call ⟨msg, .inr hlistener⟩).1
      rw [Channel.close_of_open hopen] at hfault
      cases hfault
    · cases hfault
  case closePending order =>
    split at hfault
    · rename_i pending _ hpending
      rw [h.closeAll hpending order] at hfault
      cases hfault
    · cases hfault
  case route =>
    split at hfault
    · split_ifs at hfault
      split at hfault <;> cases hfault
    · cases hfault
  all_goals split at hfault <;> cases hfault

omit [DecidableEq κ] in
/-- A step that hands no channel over. One that changes is in the map no more, open if it is
held, and not to be sent on. -/
theorem Custody.frame (h : Custody ids s) (hentries : s'.entries ⊆ s.entries)
    (hcall : ∀ call, s.call call ≠ .unborn → s'.call call ≠ .unborn)
    (hholds : ∀ call, s'.Holds call → s.Holds call)
    (hsending : ∀ call msg, s'.listener = .sending call msg → s.listener = .sending call msg)
    (hchannel : ∀ call, s'.channel call = s.channel call ∨ (∀ entry ∈ s'.entries, entry.2 ≠ call) ∧
      (s'.Holds call → (s'.channel call).closed = false) ∧ ∀ msg, s'.listener ≠ .sending call msg) :
    Custody ids s' where
  keyed entry hmem := h.keyed entry (hentries hmem)
  listed entry hmem := by
    have ⟨hnew, hborn⟩ := h.listed entry (hentries hmem)
    obtain hsame | ⟨hunlisted, -⟩ := hchannel entry.2
    · exact ⟨hsame.trans hnew, hcall _ hborn⟩
    · exact absurd rfl (hunlisted entry hmem)
  held call hheld := by
    have ⟨hopen, hborn, hunlisted⟩ := h.held call (hholds call hheld)
    refine ⟨?_, hcall _ hborn, fun entry hmem => hunlisted entry (hentries hmem)⟩
    obtain hsame | ⟨-, hkept, -⟩ := hchannel call
    · rw [hsame]
      exact hopen
    · exact hkept hheld
  sending call msg hlistener := by
    obtain hsame | ⟨-, -, hnot⟩ := hchannel call
    · exact hsame.trans (h.sending call msg (hsending call msg hlistener))
    · exact absurd hlistener (hnot msg)

theorem goTo_born {call : κ} {position : CallPosition} (hposition : position ≠ .unborn) (other : κ)
    (h : s.call other ≠ .unborn) : (s.goTo call position).call other ≠ .unborn := by
  simp only [goTo, update_apply]
  split
  · exact hposition
  · exact h

theorem Custody.registered (h : Custody ids s) {call : κ} {pending}
    (hcall : s.call call = .unborn) (hpending : s.pending = some pending) : Custody ids { s with
      pending := some (pending.insert (ids call, call))
      channel := Function.update s.channel call (.new 1)
      call := Function.update s.call call .publishing } := by
  have hother {other : κ} (hborn : s.call other ≠ .unborn) : other ≠ call :=
    fun heq => hborn (heq ▸ hcall)
  have hmem {entry : String × κ} (hentry : entry ∈ (pending.insert (ids call, call)).entries) :
      entry = (ids call, call) ∨ entry ∈ s.entries := by
    rw [entries_of_pending hpending]
    exact (KeyedMap.mem_entries_insert.mp hentry).symm.imp_right And.left
  constructor
  case keyed =>
    intro entry hentry
    obtain rfl | hold := hmem hentry
    · rfl
    · exact h.keyed entry hold
  case listed =>
    intro entry hentry
    obtain rfl | hold := hmem hentry
    · simp
    · have ⟨hnew, hborn⟩ := h.listed entry hold
      dsimp only
      rw [update_of_ne (hother hborn), update_of_ne (hother hborn)]
      exact ⟨hnew, hborn⟩
  case held =>
    intro held hheld
    have ⟨hopen, hborn, hunlisted⟩ := h.held held hheld
    dsimp only
    rw [update_of_ne (hother hborn), update_of_ne (hother hborn)]
    refine ⟨hopen, hborn, fun entry hentry => ?_⟩
    obtain rfl | hold := hmem hentry
    · exact (hother hborn).symm
    · exact hunlisted entry hold
  case sending =>
    intro held msg hlistener
    have hborn := (h.held held ⟨msg, .inl hlistener⟩).2.1
    dsimp only
    rw [update_of_ne (hother hborn)]
    exact h.sending held msg hlistener

omit [DecidableEq κ] in
theorem Custody.routed (h : Custody ids s) {call : κ} {msg : Message}
    (hentry : (msg.correlationID, call) ∈ s.entries) :
    Custody ids { s.without msg.correlationID with listener := .sending call msg } := by
  have ⟨hnew, hborn⟩ := h.listed _ hentry
  have hkey := h.keyed _ hentry
  have hmem {entry : String × κ} (hleft : entry ∈ (s.without msg.correlationID).entries) :=
    (mem_entries_without s msg.correlationID).mp hleft
  constructor
  case keyed => exact fun entry hleft => h.keyed entry (hmem hleft).1
  case listed => exact fun entry hleft => h.listed entry (hmem hleft).1
  case held =>
    rintro held ⟨msg', hlistener | hlistener⟩
    · cases hlistener
      refine ⟨by change (s.channel call).closed = false; rw [hnew]; rfl, hborn, ?_⟩
      -- the entry of the call has gone with its id
      rintro entry hleft rfl
      exact (hmem hleft).2 ((h.keyed entry (hmem hleft).1).symm.trans hkey)
    · cases hlistener
  case sending =>
    intro held msg' hlistener
    cases hlistener
    exact hnew

theorem Custody.moved (h : Custody ids s) (hmoved : Moved ids s events s') : Custody ids s' := by
  cases hmoved with
  | registered hcall hpending => exact h.registered hcall hpending
  | @went call position hcall hreturned hposition =>
    refine h.frame (List.Subset.refl _) (goTo_born ?_) (fun _ => id) (fun _ _ => id) fun _ => .inl rfl
    rintro rfl
    simp at hposition
  | @received call msg ch hcall hreceive =>
    -- a channel as it was made has nothing to receive
    have hused : s.channel call ≠ .new 1 := by
      intro hnew
      rw [hnew] at hreceive
      cases hreceive
    refine h.frame (List.Subset.refl _) (goTo_born nofun) (fun _ => id) (fun _ _ => id)
      (update_or _ ⟨?_, ?_, fun msg' hlistener => hused (h.sending call msg' hlistener)⟩)
    · rintro entry hmem rfl
      exact hused (h.listed entry hmem).1
    · intro hheld
      change (Function.update s.channel call ch call).closed = false
      rw [update_self, (Channel.receive_eq_value hreceive).2]
      exact (h.held call hheld).1
  | returned hcall =>
    refine h.frame ?_ (goTo_born nofun) (fun _ => id) (fun _ _ => id) fun _ => .inl rfl
    exact fun entry hleft => ((mem_entries_without s _).mp hleft).1
  | took hlistener =>
    refine h.frame (List.Subset.refl _) (fun _ => id) ?_ nofun fun _ => .inl rfl
    rintro call ⟨msg, hnew | hnew⟩ <;> cases hnew
  | turned hfree hlistener =>
    refine h.frame (List.Subset.refl _) (fun _ => id) ?_ ?_ fun _ => .inl rfl
    · rintro call ⟨msg, hnew | hnew⟩ <;> dsimp only at hnew <;> subst hnew <;> simp at hlistener
    · intro call msg hnew
      dsimp only at hnew
      subst hnew
      simp at hlistener
  | routed hlistener hentry => exact h.routed hentry
  | @sent call msg ch hlistener hsend =>
    have hheld : s.Holds call := ⟨msg, .inl hlistener⟩
    have ⟨hopen, _, hunlisted⟩ := h.held call hheld
    obtain ⟨-, rfl⟩ := Channel.send_eq_ok hsend
    refine h.frame (List.Subset.refl _) (fun _ => id) ?_ nofun
      (update_or _ ⟨hunlisted, fun _ => ?_, nofun⟩)
    · rintro other ⟨msg', hnew | hnew⟩ <;> cases hnew
      exact hheld
    · change (Function.update s.channel call _ call).closed = false
      rw [update_self]
      exact hopen
  | @passed call msg hlistener =>
    refine h.frame (List.Subset.refl _) (fun _ => id) ?_ nofun fun _ => .inl rfl
    rintro other ⟨msg', hnew | hnew⟩ <;> cases hnew
    exact ⟨msg, .inl hlistener⟩
  | @closed call msg ch hlistener hclose =>
    have ⟨_, _, hunlisted⟩ := h.held call ⟨msg, .inr hlistener⟩
    have hfree (other : κ) : ¬({ s.withChannel call ch with listener := .acking msg } : Calls κ).Holds other := by
      rintro ⟨msg', hnew | hnew⟩ <;> cases hnew
    exact h.frame (List.Subset.refl _) (fun _ => id) (fun other hheld => absurd hheld (hfree other))
      nofun (update_or _ ⟨hunlisted, fun hheld => absurd hheld (hfree call), nofun⟩)
  | announced =>
    exact h.frame (List.Subset.refl _) (fun _ => id) (fun _ => id) (fun _ _ => id) fun _ => .inl rfl
  | @finished pending order channel hpending hclose =>
    rw [h.closeAll hpending order] at hclose
    cases hclose
    refine h.frame (nil_subset _) (fun _ => id) (fun _ => id) (fun _ _ => id) fun call => ?_
    by_cases hmem : call ∈ (pending.inOrder order).map Prod.snd
    · have hfree : ¬s.Holds call := fun hheld => by
        obtain ⟨entry, hentry, hcall⟩ := mem_map.mp hmem
        exact (h.held call hheld).2.2 entry
          (entries_of_pending hpending ▸ KeyedMap.mem_inOrder.mp hentry) hcall
      exact .inr ⟨nofun, fun hheld => absurd hheld hfree, fun msg hlistener => hfree ⟨msg, .inl hlistener⟩⟩
    · exact .inl (if_neg hmem)

end Custody

/-- A reply is routed to the call whose id it carries, and to each call at most once. -/
structure Routing (ids : κ → String) (history : List (CallEvent κ)) (s : Calls κ) : Prop where
  own : ∀ call msg, .routed call msg ∈ history →
    msg.correlationID = ids call ∧ .received msg ∈ history
  once : ∀ call msg other, .routed call msg ∈ history → .routed call other ∈ history → other = msg
  unborn : ∀ call msg, s.call call = .unborn → .routed call msg ∉ history
  listed : ∀ entry ∈ s.entries, ∀ msg, .routed entry.2 msg ∉ history
  routing : ∀ msg, s.listener = .routing msg → .received msg ∈ history
  sending : ∀ call msg, s.listener = .sending call msg → .routed call msg ∈ history
  buffered : ∀ call, ∀ msg ∈ (s.channel call).buffer, .routed call msg ∈ history

section Routing
variable {ids : κ → String} {s s' : Calls κ} {history events : List (CallEvent κ)}

omit [DecidableEq κ] in
theorem routing_new (ids : κ → String) : Routing ids [] new where
  own := nofun
  once := nofun
  unborn := nofun
  listed := nofun
  routing := nofun
  sending := nofun
  buffered := nofun

omit [DecidableEq κ] in
theorem Routing.frame (h : Routing ids history s) (hevents : ∀ call msg, .routed call msg ∉ events)
    (hunborn : ∀ call, s'.call call = .unborn → s.call call = .unborn)
    (hlisted : ∀ entry ∈ s'.entries, entry ∈ s.entries ∨ s.call entry.2 = .unborn)
    (hrouting : ∀ msg, s'.listener = .routing msg →
      s.listener = .routing msg ∨ .received msg ∈ events)
    (hsending : ∀ call msg, s'.listener = .sending call msg → s.listener = .sending call msg)
    (hbuffered : ∀ call, ∀ msg ∈ (s'.channel call).buffer,
      msg ∈ (s.channel call).buffer ∨ s.listener = .sending call msg) :
    Routing ids (history ++ events) s' := by
  have hold {call : κ} {msg : Message} (hmem : .routed call msg ∈ history ++ events) :
      .routed call msg ∈ history :=
    (mem_append.mp hmem).resolve_right (hevents call msg)
  constructor
  case own =>
    intro call msg hmem
    have ⟨hid, hreceived⟩ := h.own call msg (hold hmem)
    exact ⟨hid, mem_append_left _ hreceived⟩
  case once => exact fun call msg other hmem hother => h.once call msg other (hold hmem) (hold hother)
  case unborn => exact fun call msg hcall hmem => h.unborn call msg (hunborn call hcall) (hold hmem)
  case listed =>
    intro entry hentry msg hmem
    obtain hbefore | hcall := hlisted entry hentry
    · exact h.listed entry hbefore msg (hold hmem)
    · exact h.unborn entry.2 msg hcall (hold hmem)
  case routing =>
    intro msg hlistener
    obtain hbefore | hnew := hrouting msg hlistener
    · exact mem_append_left _ (h.routing msg hbefore)
    · exact mem_append_right _ hnew
  case sending =>
    exact fun call msg hlistener => mem_append_left _ (h.sending call msg (hsending call msg hlistener))
  case buffered =>
    intro call msg hmem
    obtain hbefore | hlistener := hbuffered call msg hmem
    · exact mem_append_left _ (h.buffered call msg hbefore)
    · exact mem_append_left _ (h.sending call msg hlistener)

omit [DecidableEq κ] in
theorem Routing.routed (h : Routing ids history s) (hcustody : Custody ids s) {call : κ}
    {msg : Message} (hlistener : s.listener = .routing msg)
    (hentry : (msg.correlationID, call) ∈ s.entries) :
    Routing ids (history ++ [.routed call msg])
      { s.without msg.correlationID with listener := .sending call msg } := by
  have hkey : ids call = msg.correlationID := hcustody.keyed _ hentry
  have hmem {other : κ} {reply : Message} (hrouted : .routed other reply ∈ history ++ [.routed call msg]) :
      .routed other reply ∈ history ∨ (other = call ∧ reply = msg) := by
    simpa using hrouted
  constructor
  case own =>
    intro other reply hrouted
    obtain hold | ⟨rfl, rfl⟩ := hmem hrouted
    · have ⟨hid, hreceived⟩ := h.own other reply hold
      exact ⟨hid, mem_append_left _ hreceived⟩
    · exact ⟨hkey.symm, mem_append_left _ (h.routing reply hlistener)⟩
  case once =>
    intro other reply second hfirst hsecond
    obtain hold | ⟨rfl, rfl⟩ := hmem hfirst <;> obtain hold' | ⟨hcall, hmsg⟩ := hmem hsecond
    · exact h.once other reply second hold hold'
    · exact absurd (hcall ▸ hold) (h.listed _ hentry reply)
    · exact absurd hold' (h.listed _ hentry second)
    · exact hmsg
  case unborn =>
    intro other reply hcall hrouted
    obtain hold | ⟨rfl, rfl⟩ := hmem hrouted
    · exact h.unborn other reply hcall hold
    · exact (hcustody.listed _ hentry).2 hcall
  case listed =>
    intro entry hleft reply hrouted
    have ⟨hbefore, hne⟩ := (mem_entries_without s msg.correlationID).mp hleft
    obtain hold | ⟨hcall, -⟩ := hmem hrouted
    · exact h.listed entry hbefore reply hold
    · exact hne ((hcustody.keyed entry hbefore).symm.trans (hcall ▸ hkey))
  case routing => exact nofun
  case sending =>
    intro other reply hsending
    cases hsending
    exact mem_append_right _ mem_cons_self
  case buffered => exact fun other reply hbuffer => mem_append_left _ (h.buffered other reply hbuffer)

theorem goTo_unborn {call : κ} {position : CallPosition} (hposition : position ≠ .unborn) (other : κ)
    (h : (s.goTo call position).call other = .unborn) : s.call other = .unborn := by
  by_contra hborn
  exact goTo_born hposition other hborn h

theorem buffered_update {call : κ} {ch : Channel Message}
    (hch : ∀ msg ∈ ch.buffer, msg ∈ (s.channel call).buffer ∨ s.listener = .sending call msg)
    (other : κ) (msg : Message) (hmem : msg ∈ (Function.update s.channel call ch other).buffer) :
    msg ∈ (s.channel other).buffer ∨ s.listener = .sending other msg := by
  rw [update_apply] at hmem
  split at hmem
  · exact ‹other = call› ▸ hch msg hmem
  · exact .inl hmem

theorem Routing.moved (h : Routing ids history s) (hcustody : Custody ids s)
    (hmoved : Moved ids s events s') : Routing ids (history ++ events) s' := by
  cases hmoved with
  | @registered call pending hcall hpending =>
    refine h.frame nofun ?_ ?_ (fun _ => .inl) (fun _ _ => id) (buffered_update nofun)
    · exact fun other => goTo_unborn (s := s) (show CallPosition.publishing ≠ .unborn from nofun) other
    · intro entry hmem
      obtain ⟨hold, -⟩ | rfl := KeyedMap.mem_entries_insert.mp hmem
      · exact .inl (entries_of_pending hpending ▸ hold)
      · exact .inr hcall
  | @went call position hcall hreturned hposition =>
    refine h.frame nofun (goTo_unborn ?_) (fun _ => .inl) (fun _ => .inl) (fun _ _ => id)
      fun _ _ => .inl
    rintro rfl
    simp at hposition
  | @received call msg ch hcall hreceive =>
    refine h.frame nofun (goTo_unborn nofun) (fun _ => .inl) (fun _ => .inl) (fun _ _ => id)
      (buffered_update fun other hmem => ?_)
    rw [(Channel.receive_eq_value hreceive).1]
    exact .inl (mem_cons_of_mem _ hmem)
  | @returned call result hcall =>
    refine h.frame ?_ (goTo_unborn nofun) (fun entry hleft => ?_) (fun _ => .inl) (fun _ _ => id)
      fun _ _ => .inl
    · simp
    · exact .inl ((mem_entries_without s _).mp hleft).1
  | @took msg hlistener =>
    refine h.frame ?_ (fun _ => id) (fun _ => .inl) ?_ nofun fun _ _ => .inl
    · simp
    · intro other hnew
      cases hnew
      exact .inr mem_cons_self
  | turned hfree hlistener =>
    refine h.frame nofun (fun _ => id) (fun _ => .inl) ?_ ?_ fun _ _ => .inl
    · rintro msg rfl
      simp at hlistener
    · rintro call msg rfl
      simp at hlistener
  | routed hlistener hentry => exact h.routed hcustody hlistener hentry
  | @sent call msg ch hlistener hsend =>
    refine h.frame nofun (fun _ => id) (fun _ => .inl) nofun nofun
      (buffered_update fun other hmem => ?_)
    obtain ⟨-, rfl⟩ := Channel.send_eq_ok hsend
    obtain hold | hnew := mem_append.mp hmem
    · exact .inl hold
    · exact .inr (mem_singleton.mp hnew ▸ hlistener)
  | passed hlistener =>
    exact h.frame nofun (fun _ => id) (fun _ => .inl) nofun nofun fun _ _ => .inl
  | @closed call msg ch hlistener hclose =>
    refine h.frame nofun (fun _ => id) (fun _ => .inl) nofun nofun
      (buffered_update fun other hmem => ?_)
    obtain ⟨-, rfl⟩ := Channel.close_eq_ok hclose
    exact .inl hmem
  | announced =>
    exact h.frame nofun (fun _ => id) (fun _ => .inl) (fun _ => .inl) (fun _ _ => id) fun _ _ => .inl
  | @finished pending order channel hpending hclose =>
    rw [hcustody.closeAll hpending order] at hclose
    cases hclose
    refine h.frame nofun (fun _ => id) nofun (fun _ => .inl) (fun _ _ => id) fun call msg hmem => ?_
    dsimp only at hmem
    split_ifs at hmem <;> exact .inl hmem

end Routing

/-- The call has ended, or is about to, with a reply that was routed to it. -/
def Backed (history : List (CallEvent κ)) (call : κ) (position : CallPosition) : Prop :=
  ∀ payload headers, position = .leaving (.reply payload headers) ∨
    position = .returned (.reply payload headers) →
      ∃ msg, .routed call msg ∈ history ∧ msg.payload = payload ∧ msg.headers = headers

structure Reported (history : List (CallEvent κ)) (s : Calls κ) : Prop where
  backed : ∀ call, Backed history call (s.call call)
  reported : ∀ call result, .returned call result ∈ history → s.call call = .returned result
  counted : ∀ call, history.countP (CallEvent.returns call) ≤ 1

section Reported
variable {ids : κ → String} {s s' : Calls κ} {history events : List (CallEvent κ)}

theorem reported_new : Reported [] (new : Calls κ) where
  backed := by simp [Backed, new]
  reported := nofun
  counted := by simp

omit [DecidableEq κ] in
theorem Backed.append {call : κ} {position : CallPosition} (h : Backed history call position)
    (events : List (CallEvent κ)) : Backed (history ++ events) call position := by
  intro payload headers hposition
  have ⟨msg, hrouted, hpayload, hheaders⟩ := h payload headers hposition
  exact ⟨msg, mem_append_left _ hrouted, hpayload, hheaders⟩

theorem countP_returns_eq_zero {call : κ} (h : ∀ result, .returned call result ∉ history) :
    history.countP (CallEvent.returns call) = 0 := by
  refine countP_eq_zero.mpr fun event hmem hreturns => ?_
  cases event with
  | returned other result =>
    have hsame : other = call := by simpa [CallEvent.returns] using hreturns
    exact h result (hsame ▸ hmem)
  | received | routed => cases hreturns

theorem Reported.frame (h : Reported history s) (hevents : ∀ call result, .returned call result ∉ events)
    (hcall : ∀ call, s'.call call = s.call call ∨
      (∀ result, s.call call ≠ .returned result) ∧ Backed history call (s'.call call)) :
    Reported (history ++ events) s' where
  backed call := by
    obtain hsame | ⟨-, hbacked⟩ := hcall call
    · rw [hsame]
      exact (h.backed call).append events
    · exact hbacked.append events
  reported call result hmem := by
    have hold := (mem_append.mp hmem).resolve_right (hevents call result)
    have hreturned := h.reported call result hold
    obtain hsame | ⟨hnot, -⟩ := hcall call
    · rw [hsame, hreturned]
    · exact absurd hreturned (hnot result)
  counted call := by
    rw [countP_append, countP_returns_eq_zero (hevents call)]
    exact h.counted call

theorem Reported.frame_same (h : Reported history s) (hevents : ∀ call result, .returned call result ∉ events)
    (hcall : s'.call = s.call) : Reported (history ++ events) s' :=
  h.frame hevents fun call => .inl (congrFun hcall call)

theorem Reported.frame_goTo (h : Reported history s) {call : κ} {position : CallPosition}
    (hposition : s'.call = Function.update s.call call position)
    (hnot : ∀ result, s.call call ≠ .returned result) (hbacked : Backed history call position) :
    Reported (history ++ []) s' := by
  refine h.frame nofun (hposition ▸ update_or _ ?_)
  exact ⟨hnot, by rwa [update_self]⟩

theorem Reported.returned (h : Reported history s) {call : κ} {result : CallResult}
    (hcall : s.call call = .leaving result) (id : String) :
    Reported (history ++ [.returned call result]) ((s.without id).goTo call (.returned result)) := by
  have hnone (other : CallResult) : .returned call other ∉ history := by
    intro hmem
    rw [h.reported call other hmem] at hcall
    cases hcall
  constructor
  case backed =>
    intro other
    simp only [goTo, update_apply]
    split
    · subst other
      rintro payload headers (hleaving | hreturned)
      · cases hleaving
      · cases hreturned
        exact (h.backed call).append _ payload headers (.inl hcall)
    · exact (h.backed other).append _
  case reported =>
    intro other result' hmem
    change Function.update s.call call (.returned result) other = _
    obtain hold | hnew := mem_append.mp hmem
    · have hne : other ≠ call := fun hsame => hnone result' (hsame ▸ hold)
      rw [update_of_ne hne]
      exact h.reported other result' hold
    · cases mem_singleton.mp hnew
      rw [update_self]
  case counted =>
    intro other
    rw [countP_append]
    by_cases hsame : other = call
    · subst hsame
      rw [countP_returns_eq_zero hnone, Nat.zero_add]
      exact countP_le_length
    · have hother : [CallEvent.returned call result].countP (CallEvent.returns other) = 0 :=
        countP_returns_eq_zero (by simp [hsame])
      rw [hother]
      exact h.counted other

theorem Reported.moved (h : Reported history s) (hrouting : Routing ids history s)
    (hmoved : Moved ids s events s') : Reported (history ++ events) s' := by
  cases hmoved with
  | registered hcall hpending =>
    exact h.frame_goTo rfl (by simp [hcall]) (by simp [Backed])
  | @went call position hcall hreturned hposition =>
    refine h.frame_goTo rfl hreturned ?_
    obtain rfl | ⟨err, rfl⟩ | rfl := hposition <;> simp [Backed]
  | @received call msg ch hcall hreceive =>
    refine h.frame_goTo rfl (by simp [hcall]) fun payload headers hposition => ?_
    obtain hleaving | hreturned := hposition
    · cases hleaving
      refine ⟨msg, hrouting.buffered call msg ?_, rfl, rfl⟩
      rw [(Channel.receive_eq_value hreceive).1]
      exact mem_cons_self
    · cases hreturned
  | returned hcall => exact h.returned hcall _
  | took | routed => exact h.frame_same (by simp) rfl
  | turned | sent | passed | closed | announced | finished => exact h.frame_same nofun rfl

end Reported

section Runs
variable {ids : κ → String} {s : Calls κ} {history : List (CallEvent κ)}

theorem Runs.invariant (run : Runs ids history s) :
    Custody ids s ∧ Routing ids history s ∧ Reported history s := by
  refine Run.invariant (fun history s => Custody ids s ∧ Routing ids history s ∧ Reported history s)
    ⟨custody_new ids, routing_new ids, reported_new⟩ ?_ run
  rintro history before events after ⟨hcustody, hrouting, hreported⟩ ⟨move, hmove⟩
  have hmoved := moved_of_move hmove
  exact ⟨hcustody.moved hmoved, hrouting.moved hcustody hmoved, hreported.moved hrouting hmoved⟩

theorem Runs.play (run : Runs ids history s) (moves : List (CallMove κ)) :
    Runs ids (play ids moves history s).1 (play ids moves history s).2 := by
  induction moves generalizing history s with
  | nil => exact run
  | cons move rest ih =>
    rw [Calls.play]
    split
    · rename_i hmove
      exact ih (Run.next run ⟨move, hmove⟩)
    · exact ih run

end Runs

/-- Calls with distinct ids: each returns at most once, with the payload and the headers of a
reply that carries its id; a reply that is routed to a call is no other call's, and the call
returns no other reply; and no step sends on a reply channel, or closes one, after it was
closed. -/
theorem calls_correlated {ids : κ → String} (hids : Function.Injective ids)
    {history : List (CallEvent κ)} {s : Calls κ} (run : Runs ids history s) :
    (∀ call, history.countP (CallEvent.returns call) ≤ 1) ∧
      (∀ call payload headers, .returned call (.reply payload headers) ∈ history →
        ∃ msg, .received msg ∈ history ∧ msg.correlationID = ids call ∧ msg.payload = payload ∧
          msg.headers = headers) ∧
      (∀ call msg, .routed call msg ∈ history →
        (∀ other, other ≠ call → msg.correlationID ≠ ids other) ∧
          ∀ payload headers, .returned call (.reply payload headers) ∈ history →
            payload = msg.payload ∧ headers = msg.headers) ∧
      ∀ move fault, s.move ids move ≠ .error (.replyChannel fault) := by
  obtain ⟨hcustody, hrouting, hreported⟩ := run.invariant
  have hresult {call : κ} {payload : List UInt8} {headers : StringMap}
      (hmem : .returned call (.reply payload headers) ∈ history) :
      ∃ msg, .routed call msg ∈ history ∧ msg.payload = payload ∧ msg.headers = headers :=
    hreported.backed call payload headers (.inr (hreported.reported call _ hmem))
  refine ⟨hreported.counted, ?_, ?_, hcustody.no_fault⟩
  · intro call payload headers hmem
    obtain ⟨msg, hrouted, hpayload, hheaders⟩ := hresult hmem
    have ⟨hid, hreceived⟩ := hrouting.own call msg hrouted
    exact ⟨msg, hreceived, hid, hpayload, hheaders⟩
  · intro call msg hrouted
    refine ⟨fun other hne hid => ?_, fun payload headers hmem => ?_⟩
    · have hown := (hrouting.own call msg hrouted).1
      exact hne (hids (hid.symm.trans hown))
    · obtain ⟨reply, hreply, rfl, rfl⟩ := hresult hmem
      rw [hrouting.once call msg reply hrouted hreply]
      exact ⟨rfl, rfl⟩

def replyTo (id : String) (payload : UInt8) : Message :=
  ⟨"r", "_reply.c", [payload], KeyedMap.insert ∅ ("correlation_id", id), 0, 0, 0, "", 0⟩

def pairIds (call : Bool) : String := if call then "b" else "a"

/-- The reply to the first call comes twice; the second times out. -/
theorem calls_correlated_duplicate : ∃ history s, Runs pairIds history s ∧
    .returned false (.reply [1] (replyTo "a" 1).headers) ∈ history ∧
    .returned true .timeout ∈ history ∧
    history.countP (CallEvent.returns false) ≤ 1 ∧
    ∀ move fault, s.move pairIds move ≠ .error (.replyChannel fault) := by
  have hids : Function.Injective pairIds := by
    intro left right
    cases left <;> cases right <;> decide
  have begun : Runs pairIds [] new := Run.start
  have run := begun.play [.register false, .register true, .publish false none, .publish true none,
    .take (replyTo "a" 1), .route, .send, .closeReply, .ack, .timeout true, .take (replyTo "a" 2),
    .route, .receive false, .cleanup false, .cleanup true]
  have ⟨hcount, _, _, hfault⟩ := calls_correlated hids run
  exact ⟨_, _, run, by decide, by decide, hcount false, hfault⟩

end Calls

end QwerQ
