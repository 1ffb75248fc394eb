import QwerQ.Badger.Batcher
import QwerQ.Library.Channel

/-! The write batcher when it is closed: callers of `submit` select between the inbox and the
channel `done`, which `close` closes, and the loop closes the inbox before it drains it. -/
namespace QwerQ.Badger
open List

/-- What `submit` returns: what the flush told, or `ErrBatcherClosed`. -/
inductive SubmitResult where
  | flushed (err : Option Err)
  | batcherClosed
  deriving DecidableEq

inductive ShutdownEvent where
  | submitted (req : WriteRequest)
  | flushed (batch : List WriteRequest) (err : Option Err)
  | returned (req : WriteRequest) (result : SubmitResult)
  deriving DecidableEq

/-- Where the loop stands: at its select, after it has chosen `done`, in the range over the
closed inbox, and at the end. -/
inductive BatcherLoop where
  | running
  | closing
  | draining
  | returned
  deriving DecidableEq, Repr

/-- What the loop has left to do besides its work. -/
def BatcherLoop.weight : BatcherLoop → Nat
  | .running => 3
  | .closing => 2
  | .draining => 1
  | .returned => 0

/-- The batcher with its callers: those before their select, and those whose channel holds an
answer. The rest waits in the inbox or in the batch; who stands in the inbox behind its
capacity is blocked in the select. -/
structure ClosingBatcher extends Batcher where
  selecting : List WriteRequest
  answered : List (WriteRequest × Option Err)
  loop : BatcherLoop
  closed : Bool
  done : Bool

namespace ClosingBatcher

abbrev Outcome := ClosingBatcher × List ShutdownEvent

inductive Move where
  | submit (write : Write)
  /-- The caller at this place before its select; where it has a choice, whether it sends. -/
  | select (place : Nat) (sends : Bool)
  | answer (place : Nat)
  | receive (faults : FlushFaults)
  | tick (faults : FlushFaults)
  | fire
  | arrive
  | shut
  | closeInbox
  | drain
  | finish (faults : FlushFaults)
  | close

/-- The moves of callers that have started, of the loop and of the timer. -/
def Move.own : Move → Bool
  | .submit _ | .close => false
  | _ => true

def started (maxSize : Nat) (db : Db) : ClosingBatcher :=
  ⟨.started maxSize db, [], [], .running, false, false⟩

def channel (s : ClosingBatcher) : Channel WriteRequest := ⟨s.maxSize * 2, s.inbox, s.closed⟩

def submit (write : Write) (s : ClosingBatcher) : Outcome :=
  let req := writeRequest s.submitted write
  ({ s with selecting := s.selecting ++ [req], submitted := s.submitted + 1 }, [.submitted req])

/-- The select of a caller, which chooses among the cases that are ready and waits behind the
inbox if there is none. Nothing if it cannot choose as it is told. -/
def select (place : Nat) (req : WriteRequest) (sends : Bool) (s : ClosingBatcher) :
    Except Channel.Fault (Option Outcome) :=
  let left := s.selecting.eraseIdx place
  if ¬s.channel.ready ∧ s.done = false then
    .ok (some ({ s with selecting := left, inbox := s.inbox ++ [req] }, []))
  else if sends then
    if s.channel.ready then
      match s.channel.send req with
      | .error fault => .error fault
      | .ok ch => .ok (some ({ s with selecting := left, inbox := ch.buffer }, []))
    else .ok none
  else if s.done then .ok (some ({ s with selecting := left }, [.returned req .batcherClosed]))
  else .ok none

def flushed (faults : FlushFaults) (s : ClosingBatcher) : Outcome :=
  let (err, db) := flush faults s.batch s.db
  ({ s with db := db, batch := [], answered := s.answered ++ s.batch.map fun req => (req, err) },
    [.flushed s.batch err])

def finish (faults : FlushFaults) (s : ClosingBatcher) : Outcome :=
  let s := { s with loop := .returned }
  if 0 < s.batch.length then flushed faults s else (s, [])

def receive (req : WriteRequest) (faults : FlushFaults) (s : ClosingBatcher) : Outcome :=
  let timer := if s.batch.length = 0 then s.timer.reset else s.timer
  let batch := s.batch ++ [req]
  if s.maxSize ≤ batch.length then
    let timer := match timer.stop with
      | (true, timer) => timer
      | (false, timer) => timer.drain
    flushed faults { s with batch := batch, timer := timer }
  else ({ s with batch := batch, timer := timer }, [])

def tick (faults : FlushFaults) (s : ClosingBatcher) : Outcome :=
  let s := { s with timer := s.timer.drain }
  if 0 < s.batch.length then flushed faults s else (s, [])

/-- The first half of `close`. It wakes the callers that are blocked in their select. -/
def close (s : ClosingBatcher) : Outcome :=
  ({ s with done := true, inbox := s.inbox.take (s.maxSize * 2) },
    (s.inbox.drop (s.maxSize * 2)).map fun req => .returned req .batcherClosed)

/-- A step; nothing where the one who moves has to wait. The close of a channel on which
callers are blocked would make their sends fail. -/
def move (s : ClosingBatcher) : Move → Except Channel.Fault (Option Outcome)
  | .submit write => .ok (some (s.submit write))
  | .select place sends =>
      match s.selecting[place]? with
      | some req => s.select place req sends
      | none => .ok none
  | .answer place =>
      match s.answered[place]? with
      | some (req, err) => .ok (some
          ({ s with answered := s.answered.eraseIdx place }, [.returned req (.flushed err)]))
      | none => .ok none
  | .receive faults =>
      match s.loop, s.inbox with
      | .running, req :: rest => .ok (some (receive req faults { s with inbox := rest }))
      | .running, [] => .ok (if s.closed then some (s.finish faults) else none)
      | _, _ => .ok none
  | .tick faults =>
      .ok (if s.loop = .running ∧ s.timer.ready = true then some (s.tick faults) else none)
  | .fire => .ok (if s.timer.running then some ({ s with timer := s.timer.fire }, []) else none)
  | .arrive => .ok (if 0 < s.timer.late then some ({ s with timer := s.timer.arrive }, []) else none)
  | .shut =>
      .ok (if s.loop = .running ∧ s.done = true then some ({ s with loop := .closing }, []) else none)
  | .closeInbox =>
      if s.loop = .closing then
        match s.channel.close with
        | .error fault => .error fault
        | .ok ch =>
            if s.maxSize * 2 < s.inbox.length then .error .sendOnClosed
            else .ok (some ({ s with closed := ch.closed, loop := .draining }, []))
      else .ok none
  | .drain =>
      match s.loop, s.inbox with
      | .draining, req :: rest => .ok (some ({ s with inbox := rest, batch := s.batch ++ [req] }, []))
      | _, _ => .ok none
  | .finish faults =>
      .ok (if s.loop = .draining ∧ s.inbox = [] then some (s.finish faults) else none)
  | .close => if s.done then .error .closeOfClosed else .ok (some s.close)

def Step (guard : ClosingBatcher → Move → Prop) (_ : List ShutdownEvent) (s : ClosingBatcher)
    (events : List ShutdownEvent) (s' : ClosingBatcher) : Prop :=
  ∃ move, guard s move ∧ s.move move = .ok (some (s', events))

abbrev Runs (guard : ClosingBatcher → Move → Prop) := Run (Step guard)

variable {s s' : ClosingBatcher} {after : Outcome} {move : Move} {place : Nat} {sends : Bool}
  {req : WriteRequest} {rest : List WriteRequest} {events : List ShutdownEvent}

inductive Moved (s : ClosingBatcher) : Move → Outcome → Prop where
  | submit (write : Write) : Moved s (.submit write) (s.submit write)
  | enter {place : Nat} {sends : Bool} {req : WriteRequest} (hplace : s.selecting[place]? = some req)
      (hopen : s.closed = false) (hroom : s.done = true → s.inbox.length < s.maxSize * 2) :
      Moved s (.select place sends)
        ({ s with selecting := s.selecting.eraseIdx place, inbox := s.inbox ++ [req] }, [])
  | turn {place : Nat} {sends : Bool} {req : WriteRequest} (hplace : s.selecting[place]? = some req) :
      Moved s (.select place sends)
        ({ s with selecting := s.selecting.eraseIdx place }, [.returned req .batcherClosed])
  | answer {place : Nat} {req : WriteRequest} {err : Option Err}
      (hplace : s.answered[place]? = some (req, err)) :
      Moved s (.answer place)
        ({ s with answered := s.answered.eraseIdx place }, [.returned req (.flushed err)])
  | receive {req : WriteRequest} {rest : List WriteRequest} (faults : FlushFaults)
      (hloop : s.loop = .running) (hinbox : s.inbox = req :: rest) :
      Moved s (.receive faults) (receive req faults { s with inbox := rest })
  | tick (faults : FlushFaults) (hloop : s.loop = .running) (hready : s.timer.ready = true) :
      Moved s (.tick faults) (s.tick faults)
  | fire (hrunning : s.timer.running = true) : Moved s .fire ({ s with timer := s.timer.fire }, [])
  | arrive (hlate : 0 < s.timer.late) : Moved s .arrive ({ s with timer := s.timer.arrive }, [])
  | shut (hloop : s.loop = .running) (hdone : s.done = true) :
      Moved s .shut ({ s with loop := .closing }, [])
  | closeInbox (hloop : s.loop = .closing) :
      Moved s .closeInbox ({ s with closed := true, loop := .draining }, [])
  | drain {req : WriteRequest} {rest : List WriteRequest} (hloop : s.loop = .draining)
      (hinbox : s.inbox = req :: rest) :
      Moved s .drain ({ s with inbox := rest, batch := s.batch ++ [req] }, [])
  | finish {move : Move} (faults : FlushFaults) (hmove : move = .receive faults ∨ move = .finish faults)
      (hloop : s.loop = .running ∧ s.closed = true ∨ s.loop = .draining) (hinbox : s.inbox = []) :
      Moved s move (s.finish faults)
  | close (hdone : s.done = false) : Moved s .close s.close

theorem moved_of_select (hplace : s.selecting[place]? = some req)
    (h : s.select place req sends = .ok (some after)) : Moved s (.select place sends) after := by
  simp only [select] at h
  split_ifs at h with hblocked hsends hready hdone
  · cases h
    have hfull := Bool.eq_false_iff.mpr hblocked.1
    rw [Channel.ready, Bool.or_eq_false_iff] at hfull
    exact .enter hplace hfull.1 fun hdone => absurd hdone (Bool.eq_false_iff.mp hblocked.2)
  · split at h <;> cases h
    rename_i ch hsend
    obtain ⟨hopen, rfl⟩ := Channel.send_eq_ok hsend
    rw [Channel.ready_of_open hopen, decide_eq_true_eq] at hready
    exact .enter hplace hopen fun _ => hready
  · cases h
  · cases h
    exact .turn hplace
  · cases h

theorem of_ite_some {c : Prop} [Decidable c] {α : Type u} {ε : Type v} {value result : α}
    (h : (Except.ok (if c then some value else none) : Except ε (Option α)) = .ok (some result)) :
    c ∧ result = value := by
  split at h <;> cases h
  exact ⟨‹c›, rfl⟩

theorem moved_of_move (h : s.move move = .ok (some after)) : Moved s move after := by
  cases move with
  | submit write =>
    cases h
    exact .submit write
  | select place sends =>
    simp only [ClosingBatcher.move] at h
    split at h
    · exact moved_of_select ‹_› h
    · cases h
  | answer place =>
    simp only [ClosingBatcher.move] at h
    split at h <;> cases h
    exact .answer ‹_›
  | receive faults =>
    simp only [ClosingBatcher.move] at h
    split at h
    · cases h
      exact .receive faults ‹_› ‹_›
    · rename_i hloop hinbox
      obtain ⟨hclosed, rfl⟩ := of_ite_some h
      exact .finish faults (.inl rfl) (.inl ⟨hloop, hclosed⟩) hinbox
    · cases h
  | tick faults =>
    obtain ⟨⟨hloop, hready⟩, rfl⟩ := of_ite_some h
    exact .tick faults hloop hready
  | fire =>
    obtain ⟨hrunning, rfl⟩ := of_ite_some h
    exact .fire hrunning
  | arrive =>
    obtain ⟨hlate, rfl⟩ := of_ite_some h
    exact .arrive hlate
  | shut =>
    obtain ⟨⟨hloop, hdone⟩, rfl⟩ := of_ite_some h
    exact .shut hloop hdone
  | closeInbox =>
    simp only [ClosingBatcher.move] at h
    split at h
    · split at h
      · cases h
      · rename_i ch hclose
        split at h <;> cases h
        obtain ⟨-, rfl⟩ := Channel.close_eq_ok hclose
        exact .closeInbox ‹_›
    · cases h
  | drain =>
    simp only [ClosingBatcher.move] at h
    split at h <;> cases h
    exact .drain ‹_› ‹_›
  | finish faults =>
    obtain ⟨⟨hloop, hinbox⟩, rfl⟩ := of_ite_some h
    exact .finish faults (.inr rfl) (.inr hloop) hinbox
  | close =>
    simp only [ClosingBatcher.move] at h
    split at h <;> cases h
    exact .close (Bool.eq_false_iff.mpr ‹_›)

def submissions (history : List ShutdownEvent) : List WriteRequest :=
  history.filterMap fun
    | .submitted req => some req
    | _ => none

def returns (history : List ShutdownEvent) : List WriteRequest :=
  history.filterMap fun
    | .returned req _ => some req
    | _ => none

def stored (history : List ShutdownEvent) : List WriteRequest :=
  history.flatMap fun
    | .flushed batch none => batch
    | _ => []

/-- A flush with this outcome had the request in its batch. -/
def Told (history : List ShutdownEvent) (req : WriteRequest) (err : Option Err) : Prop :=
  ∃ batch, .flushed batch err ∈ history ∧ req ∈ batch

def pending (s : ClosingBatcher) : List WriteRequest :=
  s.selecting ++ s.inbox ++ s.batch ++ s.answered.map Prod.fst

/-- Every call has returned or is somewhere; what it was told comes from its flush, and the
store is made by the flushes that succeeded. -/
structure Accounted (start : Db) (history : List ShutdownEvent) (s : ClosingBatcher) : Prop where
  calls : (submissions history).Perm (s.pending ++ returns history)
  store : s.db = (stored history).foldl (fun db req => db.set req.key req.data) start
  answers : ∀ req err, (req, err) ∈ s.answered → Told history req err
  results : ∀ req err, .returned req (.flushed err) ∈ history → Told history req err

/-- What a step does to the calls: it takes in the new ones and lets go those that return; it
answers with the outcome of a flush, and the answers are what the calls return. -/
structure Accounts (s s' : ClosingBatcher) (events : List ShutdownEvent) : Prop where
  calls : (submissions events ++ s.pending).Perm (s'.pending ++ returns events)
  store : s'.db = (stored events).foldl (fun db req => db.set req.key req.data) s.db
  answers : ∀ req err, (req, err) ∈ s'.answered → (req, err) ∈ s.answered ∨ Told events req err
  results : ∀ req err, .returned req (.flushed err) ∈ events → (req, err) ∈ s.answered

section Accounted
variable {start : Db} {history more : List ShutdownEvent} {err : Option Err}

theorem Told.mono (h : Told history req err) (hsub : history ⊆ more) : Told more req err :=
  have ⟨batch, hflushed, hreq⟩ := h
  ⟨batch, hsub hflushed, hreq⟩

theorem Told.stored (h : Told history req none) : req ∈ stored history :=
  have ⟨batch, hflushed, hreq⟩ := h
  mem_flatMap.mpr ⟨.flushed batch none, hflushed, hreq⟩

theorem Accounted.step (h : Accounted start history s) (hstep : Accounts s s' events) :
    Accounted start (history ++ events) s' where
  calls := by
    have hsubmissions : submissions (history ++ events) = submissions history ++ submissions events :=
      filterMap_append
    have hreturns : returns (history ++ events) = returns history ++ returns events :=
      filterMap_append
    rw [hsubmissions, hreturns]
    refine perm_iff_count.mpr fun req => ?_
    have hcalls := h.calls.count_eq req
    have hevents := hstep.calls.count_eq req
    simp only [count_append] at hcalls hevents ⊢
    omega
  store := by
    have hstored : stored (history ++ events) = stored history ++ stored events := flatMap_append
    rw [hstored, foldl_append, ← h.store]
    exact hstep.store
  answers req err hmem := by
    rcases hstep.answers req err hmem with hold | hnew
    · exact (h.answers req err hold).mono (subset_append_left _ _)
    · exact hnew.mono (subset_append_right _ _)
  results req err hmem := by
    refine Told.mono ?_ (subset_append_left _ _)
    rcases mem_append.mp hmem with hold | hnew
    · exact h.results req err hold
    · exact h.answers req err (hstep.results req err hnew)

theorem Accounts.shift (hpending : s.pending.Perm s'.pending) (hdb : s'.db = s.db)
    (hanswered : s'.answered = s.answered) : Accounts s s' [] where
  calls := by simpa [submissions, returns] using hpending
  store := hdb
  answers req err hmem := .inl (hanswered ▸ hmem)
  results := nofun

theorem Accounts.flushed (h : Accounts s s' []) (faults : FlushFaults) :
    Accounts s (s'.flushed faults).1 (s'.flushed faults).2 where
  calls := by
    refine perm_iff_count.mpr fun req => ?_
    have hcalls := h.calls.count_eq req
    simp only [submissions, returns, pending, ClosingBatcher.flushed, filterMap_cons,
      filterMap_nil, map_append, map_map, Function.comp_def, map_id',
      count_append, count_nil] at hcalls ⊢
    omega
  store := by
    simp only [ClosingBatcher.flushed, stored, flatMap_cons, flatMap_nil, append_nil]
    rw [← show s'.db = s.db from h.store]
    rcases Batcher.flush_cases faults s'.batch s'.db with ⟨hnone, hdb⟩ | ⟨hsome, hdb⟩
    · rw [hnone, hdb]
    · rw [hdb]
      split
      · rename_i heq
        exact absurd (ShutdownEvent.flushed.inj heq).2 hsome
      · rfl
  answers req err hmem := by
    simp only [ClosingBatcher.flushed, mem_append, mem_map] at hmem
    rcases hmem with hold | ⟨told, hmem, heq⟩
    · rcases h.answers req err hold with hkept | ⟨_, hnone, _⟩
      · exact .inl hkept
      · cases hnone
    · cases heq
      exact .inr ⟨s'.batch, mem_singleton_self _, hmem⟩
  results req err hmem := by
    have hflushed := mem_singleton.mp hmem
    cases hflushed

theorem Accounts.turned {reqs : List WriteRequest} (hpending : s.pending.Perm (s'.pending ++ reqs))
    (hdb : s'.db = s.db) (hanswered : s'.answered = s.answered) :
    Accounts s s' (reqs.map fun req => .returned req .batcherClosed) where
  calls := by
    have hsubmissions : submissions (reqs.map fun req => .returned req .batcherClosed) = [] := by
      simp [submissions]
    have hreturns : returns (reqs.map fun req => .returned req .batcherClosed) = reqs := by
      simp [returns, filterMap_map]
    rw [hsubmissions, hreturns]
    exact hpending
  store := by
    have hstored : stored (reqs.map fun req => .returned req .batcherClosed) = [] := by simp [stored]
    rw [hstored]
    exact hdb
  answers req err hmem := .inl (hanswered ▸ hmem)
  results req err hmem := by simp at hmem

theorem perm_eraseIdx {α : Type u} {l : List α} {place : Nat} {a : α} (h : l[place]? = some a) :
    l.Perm (a :: l.eraseIdx place) := by
  have ⟨hlt, hget⟩ := List.getElem?_eq_some_iff.mp h
  rw [← hget]
  exact (getElem_cons_eraseIdx_perm hlt).symm

end Accounted

/-- A step of the loop, which goes to `loop` and leaves `rest` in the inbox: it accounts for the
calls and leaves the channels and the callers before their select as they are. -/
structure Serves (s : ClosingBatcher) (rest : List WriteRequest) (loop : BatcherLoop)
    (after : Outcome) : Prop where
  accounts : Accounts s after.1 after.2
  submits : submissions after.2 = []
  loop : after.1.loop = loop
  inbox : after.1.inbox = rest
  selecting : after.1.selecting = s.selecting
  closed : after.1.closed = s.closed
  done : after.1.done = s.done
  maxSize : after.1.maxSize = s.maxSize

section Loop
variable {loop : BatcherLoop} (faults : FlushFaults)

theorem Serves.flushed (h : Serves s rest loop (s', [])) : Serves s rest loop (s'.flushed faults) :=
  ⟨h.accounts.flushed faults, rfl, h.loop, h.inbox, h.selecting, h.closed, h.done, h.maxSize⟩

theorem serves_take (hinbox : s.inbox = req :: rest) (timer : Timer) : Serves s rest s.loop
    ({ s with inbox := rest, batch := s.batch ++ [req], timer := timer }, []) := by
  refine ⟨.shift (perm_iff_count.mpr fun other => ?_) rfl rfl, rfl, rfl, rfl, rfl, rfl, rfl, rfl⟩
  simp only [pending, hinbox, count_append, count_cons, count_nil]
  omega

theorem serves_receive (hinbox : s.inbox = req :: rest) :
    Serves s rest s.loop (receive req faults { s with inbox := rest }) := by
  simp only [receive]
  split
  · exact (serves_take hinbox _).flushed faults
  · exact serves_take hinbox _

theorem serves_tick (s : ClosingBatcher) : Serves s s.inbox s.loop (s.tick faults) := by
  have hbase : Serves s s.inbox s.loop ({ s with timer := s.timer.drain }, []) :=
    ⟨.shift (.refl _) rfl rfl, rfl, rfl, rfl, rfl, rfl, rfl, rfl⟩
  simp only [tick]
  split
  · exact hbase.flushed faults
  · exact hbase

theorem serves_finish (s : ClosingBatcher) :
    Serves s s.inbox .returned (s.finish faults) ∧ (s.finish faults).1.batch = [] ∧
      (s.finish faults).1.timer = s.timer := by
  have hbase : Serves s s.inbox .returned ({ s with loop := .returned }, []) :=
    ⟨.shift (.refl _) rfl rfl, rfl, rfl, rfl, rfl, rfl, rfl, rfl⟩
  simp only [finish]
  split
  · exact ⟨hbase.flushed faults, rfl, rfl⟩
  · rename_i hempty
    exact ⟨hbase, length_eq_zero_iff.mp (Nat.eq_zero_of_not_pos hempty), rfl⟩

theorem receive_steps (hinbox : s.inbox = req :: rest) : ∃ events,
    s.toBatcher.LoopStep events (receive req faults { s with inbox := rest }).1.toBatcher := by
  have hsame : (receive req faults { s with inbox := rest }).1.toBatcher =
      ({ s.toBatcher with inbox := rest }.receive req faults).1 := by
    simp only [receive, Batcher.receive]
    split <;> rfl
  rw [hsame]
  exact ⟨_, .receive faults hinbox⟩

theorem tick_steps (hready : s.timer.ready = true) :
    ∃ events, s.toBatcher.LoopStep events (s.tick faults).1.toBatcher := by
  have hsame : (s.tick faults).1.toBatcher = (s.toBatcher.tick faults).1 := by
    simp only [tick, Batcher.tick]
    split <;> rfl
  rw [hsame]
  exact ⟨_, .tick faults hready⟩

end Loop

theorem Moved.accounts (h : Moved s move after) : Accounts s after.1 after.2 := by
  cases h with
  | submit write =>
    refine ⟨?_, rfl, fun _ _ hmem => .inl hmem, fun _ _ hmem => ?_⟩
    · refine perm_iff_count.mpr fun req => ?_
      simp only [submissions, returns, pending, ClosingBatcher.submit, filterMap_cons,
        filterMap_nil, count_append, count_nil]
      omega
    · have hsubmitted := mem_singleton.mp hmem
      cases hsubmitted
  | enter hplace hopen hroom =>
    refine .shift (perm_iff_count.mpr fun req => ?_) rfl rfl
    have hcount := (perm_eraseIdx hplace).count_eq req
    simp only [pending, count_append, count_cons, count_nil] at hcount ⊢
    omega
  | @turn place sends req hplace =>
    change Accounts s _ ([req].map fun req => .returned req .batcherClosed)
    refine .turned (perm_iff_count.mpr fun other => ?_) rfl rfl
    have hcount := (perm_eraseIdx hplace).count_eq other
    simp only [pending, count_append, count_cons, count_nil] at hcount ⊢
    omega
  | answer hplace =>
    refine ⟨perm_iff_count.mpr fun req => ?_, rfl, fun _ _ hmem => .inl ?_, fun _ _ hmem => ?_⟩
    · have hcount := ((perm_eraseIdx hplace).map Prod.fst).count_eq req
      simp only [submissions, returns, pending, filterMap_cons, filterMap_nil,
        count_append, count_cons, count_nil, map_cons] at hcount ⊢
      omega
    · exact mem_of_mem_eraseIdx hmem
    · have hreturned := mem_singleton.mp hmem
      cases hreturned
      exact mem_of_getElem? hplace
  | receive faults hloop hinbox => exact (serves_receive faults hinbox).accounts
  | tick faults hloop hready => exact (serves_tick faults s).accounts
  | drain hloop hinbox => exact (serves_take hinbox s.timer).accounts
  | finish faults hmove hloop hinbox => exact (serves_finish faults s).1.accounts
  | close hdone =>
    refine .turned (perm_iff_count.mpr fun req => ?_) rfl rfl
    have hinbox := congrArg (List.count req) (take_append_drop (s.maxSize * 2) s.inbox)
    rw [count_append] at hinbox
    simp only [pending, ClosingBatcher.close, count_append]
    omega
  | fire | arrive | shut | closeInbox => exact .shift (.refl _) rfl rfl

structure Orderly (s : ClosingBatcher) : Prop where
  told : s.loop ≠ .running → s.done = true
  closed : s.closed = true ↔ s.loop = .draining ∨ s.loop = .returned
  unblocked : s.done = true → s.inbox.length ≤ s.maxSize * 2
  armed : s.loop = .running → s.toBatcher.Armed
  ended : s.loop = .returned → s.inbox = [] ∧ s.batch = []

theorem orderly_running (hloop : s.loop = .running) (hclosed : s.closed = false)
    (hunblocked : s.done = true → s.inbox.length ≤ s.maxSize * 2) (harmed : s.toBatcher.Armed) :
    s.Orderly where
  told h := absurd hloop h
  closed := by simp [hloop, hclosed]
  unblocked := hunblocked
  armed _ := harmed
  ended h := by simp [hloop] at h

theorem Orderly.open_of_running (h : s.Orderly) (hloop : s.loop = .running) : s.closed = false := by
  refine Bool.eq_false_iff.mpr fun hclosed => ?_
  simpa [hloop] using h.closed.mp hclosed

theorem Orderly.serves (h : s.Orderly) (hloop : s.loop = .running)
    (hserves : Serves s rest s.loop after) (hrest : rest.length ≤ s.inbox.length)
    (hstep : ∃ events, s.toBatcher.LoopStep events after.1.toBatcher) : after.1.Orderly := by
  obtain ⟨events, hstep⟩ := hstep
  refine orderly_running (hserves.loop.trans hloop) (hserves.closed.trans (h.open_of_running hloop))
    (fun hdone => ?_) ((h.armed hloop).loop hstep)
  rw [hserves.inbox, hserves.maxSize]
  exact hrest.trans (h.unblocked (hserves.done.symm.trans hdone))

theorem Orderly.step (h : s.Orderly) (hmoved : Moved s move after) : after.1.Orderly := by
  cases hmoved with
  | @enter place sends req hplace hopen hroom =>
    refine ⟨h.told, h.closed, fun hdone => ?_, h.armed, fun hreturned => ?_⟩
    · have := hroom hdone
      simp only [length_append, length_singleton]
      omega
    · exact absurd (h.closed.mpr (.inr hreturned)) (Bool.eq_false_iff.mp hopen)
  | @receive req rest faults hloop hinbox =>
    refine h.serves hloop (serves_receive faults hinbox) ?_ (receive_steps faults hinbox)
    rw [hinbox]
    exact Nat.le_succ _
  | tick faults hloop hready =>
    exact h.serves hloop (serves_tick faults s) le_rfl (tick_steps faults hready)
  | fire hrunning =>
    exact ⟨h.told, h.closed, h.unblocked, fun hloop => (h.armed hloop).loop (.fire hrunning), h.ended⟩
  | arrive hlate =>
    exact ⟨h.told, h.closed, h.unblocked, fun hloop => (h.armed hloop).loop (.arrive hlate), h.ended⟩
  | shut hloop hdone =>
    exact ⟨fun _ => hdone, by simp [h.open_of_running hloop], h.unblocked, nofun, nofun⟩
  | closeInbox hloop =>
    have hdone := h.told (by simp [hloop])
    exact ⟨fun _ => hdone, by simp, h.unblocked, nofun, nofun⟩
  | @drain req rest hloop hinbox =>
    refine ⟨h.told, h.closed, fun hdone => ?_, fun hrunning => ?_, fun hreturned => ?_⟩
    · have hroom := h.unblocked hdone
      rw [hinbox, length_cons] at hroom
      exact Nat.le_of_succ_le hroom
    · exact absurd (hloop.symm.trans hrunning) nofun
    · exact absurd (hloop.symm.trans hreturned) nofun
  | finish faults hmove hloop hinbox =>
    have ⟨hserves, hbatch, _⟩ := serves_finish faults s
    have hdraining : s.loop = .draining := by
      rcases hloop with ⟨hrunning, hclosed⟩ | hdraining
      · rw [h.open_of_running hrunning] at hclosed
        cases hclosed
      · exact hdraining
    have hdone := h.told (by simp [hdraining])
    refine ⟨fun _ => hserves.done.trans hdone, ?_, fun _ => ?_, fun hrunning => ?_, fun _ => ?_⟩
    · simp [hserves.closed, hserves.loop, h.closed, hdraining]
    · simp [hserves.inbox, hinbox]
    · exact absurd (hserves.loop.symm.trans hrunning) nofun
    · exact ⟨hserves.inbox.trans hinbox, hbatch⟩
  | close hdone =>
    have hloop : s.loop = .running := by
      by_contra hother
      rw [h.told hother] at hdone
      cases hdone
    exact orderly_running hloop (h.open_of_running hloop) (fun _ => length_take_le _ _) (h.armed hloop)
  | submit | turn | answer => exact ⟨h.told, h.closed, h.unblocked, h.armed, h.ended⟩

def Exposed (s : ClosingBatcher) : Prop := s.closed = true ∧ s.selecting ≠ []

theorem select_closed (h : s.select place req sends = .error .sendOnClosed) : s.closed = true := by
  simp only [select] at h
  split_ifs at h
  split at h
  · rename_i hsend
    exact Channel.closed_of_send_error hsend
  · cases h

theorem Orderly.exposed (h : s.Orderly) (hfault : s.move move = .error .sendOnClosed) : s.Exposed := by
  cases move with
  | select place sends =>
    simp only [ClosingBatcher.move] at hfault
    split at hfault
    · rename_i hplace
      exact ⟨select_closed hfault, ne_nil_of_mem (mem_of_getElem? hplace)⟩
    · cases hfault
  | closeInbox =>
    simp only [ClosingBatcher.move] at hfault
    split at hfault
    · rename_i hloop
      split at hfault
      · rename_i hclose
        cases hfault
        cases Channel.close_eq_error hclose
      · split at hfault
        · have hroom := h.unblocked (h.told (by simp [hloop]))
          omega
        · cases hfault
    · cases hfault
  | answer | receive | drain | close =>
    simp only [ClosingBatcher.move] at hfault
    split at hfault <;> cases hfault
  | _ => cases hfault

theorem Exposed.faults (h : s.Exposed) : s.move (.select 0 true) = .error .sendOnClosed := by
  have ⟨hclosed, hselecting⟩ := h
  have hready : s.channel.ready = true := by simp [Channel.ready, channel, hclosed]
  have hsend (req : WriteRequest) : s.channel.send req = .error .sendOnClosed := by
    simp [Channel.send, channel, hclosed]
  cases hcallers : s.selecting with
  | nil => exact absurd hcallers hselecting
  | cons req rest => simp [ClosingBatcher.move, select, hcallers, hready, hsend]

theorem Orderly.safe_iff (h : s.Orderly) :
    (∀ move, s.move move ≠ .error .sendOnClosed) ↔ ¬s.Exposed :=
  ⟨fun hsafe hexposed => hsafe _ hexposed.faults, fun hclear _ hfault => hclear (h.exposed hfault)⟩

def effort (s : ClosingBatcher) : Nat :=
  5 * s.selecting.length + s.toBatcher.work + s.loop.weight

/-- A bound on what can still happen without a new call. -/
def work (s : ClosingBatcher) : Nat := s.pending.length + s.effort

theorem Serves.effort_lt (h : Serves s rest s.loop after)
    (hstep : ∃ events, s.toBatcher.LoopStep events after.1.toBatcher) :
    submissions after.2 = [] ∧ after.1.effort < s.effort + (returns after.2).length := by
  obtain ⟨events, hstep⟩ := hstep
  have hwork := Batcher.work_lt hstep
  refine ⟨h.submits, ?_⟩
  rw [effort, effort, h.selecting, h.loop]
  omega

theorem effort_lt (hmoved : Moved s move after) (hown : move.own = true) :
    submissions after.2 = [] ∧ after.1.effort < s.effort + (returns after.2).length := by
  cases hmoved with
  | submit | close => cases hown
  | receive faults hloop hinbox =>
    exact (serves_receive faults hinbox).effort_lt (receive_steps faults hinbox)
  | tick faults hloop hready => exact (serves_tick faults s).effort_lt (tick_steps faults hready)
  | finish faults hmove hloop hinbox =>
    obtain ⟨hserves, _, htimer⟩ := serves_finish faults s
    have hweight : 0 < s.loop.weight := by
      rcases hloop with ⟨hrunning, -⟩ | hdraining
      · simp [hrunning, BatcherLoop.weight]
      · simp [hdraining, BatcherLoop.weight]
    refine ⟨hserves.submits, ?_⟩
    have hend : BatcherLoop.returned.weight = 0 := rfl
    rw [effort, effort, hserves.selecting, hserves.loop, Batcher.work, Batcher.work, hserves.inbox, htimer]
    omega
  | fire hrunning =>
    have hwork := Batcher.work_lt (.fire hrunning)
    refine ⟨rfl, ?_⟩
    simp only [effort]
    omega
  | arrive hlate =>
    have hwork := Batcher.work_lt (.arrive hlate)
    refine ⟨rfl, ?_⟩
    simp only [effort]
    omega
  | enter hplace hopen hroom =>
    obtain ⟨hlt, _⟩ := List.getElem?_eq_some_iff.mp hplace
    refine ⟨rfl, ?_⟩
    simp only [effort, Batcher.work, length_eraseIdx_of_lt hlt, length_append,
      length_singleton]
    omega
  | turn hplace =>
    obtain ⟨hlt, _⟩ := List.getElem?_eq_some_iff.mp hplace
    refine ⟨rfl, ?_⟩
    simp only [effort, length_eraseIdx_of_lt hlt]
    omega
  | answer hplace => exact ⟨rfl, Nat.lt_succ_self _⟩
  | shut hloop hdone =>
    refine ⟨rfl, ?_⟩
    simp only [effort, hloop, BatcherLoop.weight]
    omega
  | closeInbox hloop =>
    refine ⟨rfl, ?_⟩
    simp only [effort, hloop, BatcherLoop.weight]
    omega
  | drain hloop hinbox =>
    refine ⟨rfl, ?_⟩
    simp only [effort, Batcher.work, hinbox, length_cons]
    omega

/-- Callers, the loop and the timer cannot go on for ever. -/
theorem work_lt (hmoved : Moved s move after) (hown : move.own = true) :
    after.1.work < s.work := by
  have ⟨hnone, heffort⟩ := effort_lt hmoved hown
  have hlength := hmoved.accounts.calls.length_eq
  rw [hnone, nil_append, length_append] at hlength
  unfold work
  omega

/-- No caller stands before its select when the loop closes the inbox, and none comes later. -/
def timely (s : ClosingBatcher) : Move → Bool
  | .submit _ => !s.closed
  | .closeInbox => s.selecting.isEmpty
  | _ => true

/-- Nothing moves any more unless there is a new call, or the batcher is closed. A loop that
waits for callers to evaluate their select moves when they have. -/
def Idle (s : ClosingBatcher) : Prop :=
  ∀ move : Move, move.own = true → s.timely move = true → s.move move = .ok none

theorem Idle.selecting (h : s.Idle) : s.selecting = [] := by
  cases hcallers : s.selecting with
  | nil => rfl
  | cons req rest =>
    have hsends : s.select 0 req true = .ok none := by
      simpa [ClosingBatcher.move, hcallers] using h (.select 0 true) rfl rfl
    have hturns : s.select 0 req false = .ok none := by
      simpa [ClosingBatcher.move, hcallers] using h (.select 0 false) rfl rfl
    cases hready : s.channel.ready with
    | true =>
      simp only [select, hready] at hsends
      cases hclosed : s.closed with
      | true | false => simp [Channel.send, channel, hclosed] at hsends
    | false =>
      cases hdone : s.done with
      | true | false => simp [select, hready, hdone] at hturns

theorem Idle.answered (h : s.Idle) : s.answered = [] := by
  cases hanswered : s.answered with
  | nil => rfl
  | cons pair rest =>
    have hnone := h (.answer 0) rfl rfl
    simp [ClosingBatcher.move, hanswered] at hnone

theorem Idle.loop (hidle : s.Idle) (h : s.Orderly) : s.inbox = [] ∧ s.batch = [] := by
  cases hloop : s.loop with
  | running =>
    have hinbox : s.inbox = [] := by
      cases hinbox : s.inbox with
      | nil => rfl
      | cons req rest =>
        have hnone := hidle (.receive Batcher.succeed) rfl rfl
        simp [ClosingBatcher.move, hloop, hinbox] at hnone
    refine ⟨hinbox, ?_⟩
    by_contra hbatch
    rcases h.armed hloop hbatch with hrunning | hlate | hready
    · have hnone := hidle .fire rfl rfl
      simp [ClosingBatcher.move, hrunning] at hnone
    · have hnone := hidle .arrive rfl rfl
      simp [ClosingBatcher.move, hlate] at hnone
    · have hnone := hidle (.tick Batcher.succeed) rfl rfl
      simp [ClosingBatcher.move, hloop, hready] at hnone
  | closing =>
    have hopen : s.closed = false := by
      refine Bool.eq_false_iff.mpr fun hclosed => ?_
      simpa [hloop] using h.closed.mp hclosed
    have hroom := h.unblocked (h.told (by simp [hloop]))
    have hnone := hidle .closeInbox rfl (isEmpty_iff.mpr hidle.selecting)
    simp [ClosingBatcher.move, hloop, Channel.close, channel, hopen, Nat.not_lt.mpr hroom] at hnone
  | draining =>
    cases hinbox : s.inbox with
    | nil =>
      have hnone := hidle (.finish Batcher.succeed) rfl rfl
      simp [ClosingBatcher.move, hloop, hinbox] at hnone
    | cons req rest =>
      have hnone := hidle .drain rfl rfl
      simp [ClosingBatcher.move, hloop, hinbox] at hnone
  | returned => exact h.ended hloop

theorem Idle.pending (hidle : s.Idle) (h : s.Orderly) : s.pending = [] := by
  have ⟨hinbox, hbatch⟩ := hidle.loop h
  simp [ClosingBatcher.pending, hidle.selecting, hidle.answered, hinbox, hbatch]

section Runs
variable {guard : ClosingBatcher → Move → Prop} {maxSize : Nat} {start : Db}
  {history : List ShutdownEvent}

theorem Runs.orderly (run : Runs guard (started maxSize start) history s) : s.Orderly := by
  refine run.invariant (fun _ s => s.Orderly) ?_ fun h ⟨_, _, hmove⟩ => h.step (moved_of_move hmove)
  exact orderly_running rfl rfl nofun fun hbatch => absurd rfl hbatch

theorem Runs.accounted (run : Runs guard (started maxSize start) history s) :
    Accounted start history s := by
  refine run.invariant (Accounted start)
    ⟨.refl _, rfl, fun _ _ hmem => absurd hmem not_mem_nil, nofun⟩ ?_
  intro history s events s' h ⟨move, _, hmove⟩
  exact h.step (moved_of_move hmove).accounts

theorem not_exposed_of_kept (h : ¬s.Exposed) (hclosed : s'.closed = s.closed)
    (hselecting : s.selecting = [] → s'.selecting = []) : ¬s'.Exposed :=
  fun ⟨hshut, hcallers⟩ => h ⟨hclosed.symm.trans hshut, mt hselecting hcallers⟩

theorem not_exposed_step (h : ¬s.Exposed) (hguard : s.timely move = true)
    (hmoved : Moved s move after) : ¬after.1.Exposed := by
  cases hmoved with
  | submit write =>
    rintro ⟨hclosed, -⟩
    simp [timely, show s.closed = true from hclosed] at hguard
  | closeInbox hloop => exact fun hexposed => hexposed.2 (isEmpty_iff.mp hguard)
  | enter | turn =>
    refine not_exposed_of_kept h rfl fun hnone => ?_
    simp [hnone]
  | receive faults hloop hinbox =>
    have hserves := serves_receive faults hinbox
    exact not_exposed_of_kept h hserves.closed hserves.selecting.trans
  | tick faults hloop hready =>
    have hserves := serves_tick faults s
    exact not_exposed_of_kept h hserves.closed hserves.selecting.trans
  | finish faults hmove hloop hinbox =>
    have hserves := (serves_finish faults s).1
    exact not_exposed_of_kept h hserves.closed hserves.selecting.trans
  | answer | fire | arrive | shut | drain | close => exact not_exposed_of_kept h rfl id

theorem Runs.not_exposed (run : Runs (timely · ·) (started maxSize start) history s) : ¬s.Exposed :=
  run.invariant (fun _ s => ¬s.Exposed) (fun hexposed => hexposed.2 rfl) fun h ⟨_, hguard, hmove⟩ =>
    not_exposed_step h hguard (moved_of_move hmove)

end Runs

/-- In every run a step can send on the closed inbox exactly if a caller stands before its
select while the inbox is closed, and this cannot be where every caller evaluates its select
before the loop closes the inbox. Where the steps that send on it are not taken, the callers
that have started, the loop and the timer come to an end, and then each of them has returned;
what a call returns is the outcome of the flush with its write, which is in the store if the
outcome is nil, or `ErrBatcherClosed`. -/
theorem shutdown_safe (maxSize : Nat) (start : Db) :
    (∀ history s, Runs (fun _ _ => True) (started maxSize start) history s →
      ((∀ move, s.move move ≠ .error .sendOnClosed) ↔ ¬s.Exposed) ∧
      (∀ move after, move.own = true → s.move move = .ok (some after) → after.1.work < s.work) ∧
      (s.Idle → (submissions history).Perm (returns history)) ∧
      s.db = (stored history).foldl (fun db req => db.set req.key req.data) start ∧
      ∀ req err, .returned req (.flushed err) ∈ history →
        Told history req err ∧ (err = none → req ∈ stored history)) ∧
    ∀ history s, Runs (timely · ·) (started maxSize start) history s →
      ∀ move, s.move move ≠ .error .sendOnClosed := by
  refine ⟨fun history s run => ⟨run.orderly.safe_iff, ?_, ?_, run.accounted.store, ?_⟩, ?_⟩
  · intro move after hown hmove
    exact work_lt (moved_of_move hmove) hown
  · intro hidle
    have hcalls := run.accounted.calls
    rw [hidle.pending run.orderly] at hcalls
    exact hcalls
  · intro req err hreturned
    have htold := run.accounted.results req err hreturned
    refine ⟨htold, ?_⟩
    rintro rfl
    exact htold.stored
  · intro history s run
    exact run.orderly.safe_iff.mpr run.not_exposed

/-- A caller that has sent its request before the batcher is closed. -/
theorem shutdown_safe_drained : ∃ history s,
    Runs (timely · ·) (started 1 OrderedStore.empty) history s ∧ s.loop = .returned ∧
      ShutdownEvent.returned (writeRequest 0 (Batcher.order [7])) (.flushed none) ∈ history ∧
      ∀ move, s.move move ≠ .error .sendOnClosed := by
  have closed : Runs (timely · ·) (started 1 OrderedStore.empty) _ _ :=
    ((Run.start.next ⟨.submit (Batcher.order [7]), rfl, rfl⟩).next ⟨.select 0 true, rfl, rfl⟩).next
      ⟨.close, rfl, rfl⟩
  have drained := ((closed.next ⟨.shut, rfl, rfl⟩).next ⟨.closeInbox, rfl, rfl⟩).next ⟨.drain, rfl, rfl⟩
  have run := (drained.next ⟨.finish Batcher.succeed, rfl, rfl⟩).next ⟨.answer 0, rfl, rfl⟩
  exact ⟨_, _, run, rfl, by decide, (shutdown_safe _ _).2 _ _ run⟩

/-- A caller that comes when `close` has returned. -/
theorem submit_sends_on_closed : ∃ history s,
    Runs (fun _ _ => True) (started 1 OrderedStore.empty) history s ∧ s.loop = .returned ∧
      s.move (.select 0 true) = .error .sendOnClosed := by
  have returned : Runs (fun _ _ => True) (started 1 OrderedStore.empty) _ _ :=
    (((Run.start.next ⟨.close, trivial, rfl⟩).next ⟨.shut, trivial, rfl⟩).next
      ⟨.closeInbox, trivial, rfl⟩).next ⟨.finish Batcher.succeed, trivial, rfl⟩
  have run := returned.next ⟨.submit (Batcher.order [7]), trivial, rfl⟩
  exact ⟨_, _, run, rfl, rfl⟩

end ClosingBatcher

end QwerQ.Badger
