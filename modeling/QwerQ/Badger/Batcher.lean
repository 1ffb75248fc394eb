import QwerQ.Badger.Store
import QwerQ.Library.Run

/-! The write batcher: single writes are collected and flushed together, when there are
enough of them or when a timer fires. The slice of the batch is used again only after
every request in it has been answered, so a list stands for it; callers that wait for
room in the inbox stand at its end, in the order in which they came. -/
namespace QwerQ.Badger
open List

/-- A message to be saved, with the order in which its headers are encoded. -/
abbrev Write := List Bytes × Message

/-- `number` tells which caller waits on the request's channel. -/
structure WriteRequest where
  number : Nat
  key : Bytes
  data : Bytes
  deriving DecidableEq

def writeRequest (number : Nat) (write : Write) : WriteRequest :=
  ⟨number, msgKey write.2.queue write.2.id, encodeMessage write.1 write.2⟩

/-- A timer with its channel. What has fired may reach the channel late; the channel holds
one value, and values that find it full are dropped. -/
structure Timer where
  running : Bool
  late : Nat
  ready : Bool
  deriving DecidableEq, Repr

namespace Timer

def reset (t : Timer) : Timer := { t with running := true }

def stop (t : Timer) : Bool × Timer := (t.running, { t with running := false })

def drain (t : Timer) : Timer := { t with ready := false }

def fire (t : Timer) : Timer := { t with running := false, late := t.late + 1 }

def arrive (t : Timer) : Timer := { t with late := t.late - 1, ready := true }

def Pending (t : Timer) : Prop := t.running = true ∨ 0 < t.late ∨ t.ready = true

def weight (t : Timer) : Nat := 3 * t.running.toNat + 2 * t.late + t.ready.toNat

theorem weight_reset_le (t : Timer) : t.reset.weight ≤ t.weight + 3 := by
  simp only [weight, reset, Bool.toNat_true]
  omega

theorem weight_stop_le (t : Timer) : t.stop.2.weight ≤ t.weight := by
  simp only [weight, stop, Bool.toNat_false]
  omega

theorem weight_drain_le (t : Timer) : t.drain.weight ≤ t.weight := by
  simp only [weight, drain, Bool.toNat_false]
  omega

end Timer

structure FlushFaults where
  set : Nat → Option String
  flush : Option String

def setAll : List WriteRequest → (Nat → Option String) → Except Err (List (Bytes × Bytes))
  | [], _ => .ok []
  | req :: rest, faults =>
      match faults 0 with
      | some text => .error (.storage text)
      | none => do
          let writes ← setAll rest fun n => faults (n + 1)
          return (req.key, req.data) :: writes

/-- What all callers are told, and the store. The batch of the database applies all its
writes in order, or none. -/
def flush (faults : FlushFaults) (batch : List WriteRequest) (db : Db) : Option Err × Db :=
  match setAll batch faults.set with
  | .error err => (some err, db)
  | .ok writes => update faults.flush (fun db => writes.foldl (fun db write => db.set write.1 write.2) db) db

structure Batcher where
  maxSize : Nat
  inbox : List WriteRequest
  batch : List WriteRequest
  timer : Timer
  db : Db
  submitted : Nat

inductive BatchEvent where
  | submitted (write : Write)
  | flushed (size : Nat)
  | answered (number : Nat) (err : Option Err)

namespace Batcher

def started (maxSize : Nat) (db : Db) : Batcher := ⟨maxSize, [], [], ⟨false, 0, false⟩, db, 0⟩

def submit (write : Write) (b : Batcher) : Batcher :=
  { b with
    inbox := b.inbox ++ [writeRequest b.submitted write]
    submitted := b.submitted + 1 }

/-- The flush of the batch with its answers, and the empty batch. -/
def flushed (faults : FlushFaults) (b : Batcher) : Batcher × List BatchEvent :=
  let (err, db) := flush faults b.batch b.db
  ({ b with db := db, batch := [] },
    .flushed b.batch.length :: b.batch.map fun req => .answered req.number err)

def receive (req : WriteRequest) (faults : FlushFaults) (b : Batcher) : Batcher × List BatchEvent :=
  let timer := if b.batch.length = 0 then b.timer.reset else b.timer
  let batch := b.batch ++ [req]
  if b.maxSize ≤ batch.length then
    let timer := match timer.stop with
      | (true, timer) => timer
      | (false, timer) => timer.drain
    flushed faults { b with batch := batch, timer := timer }
  else ({ b with batch := batch, timer := timer }, [])

def tick (faults : FlushFaults) (b : Batcher) : Batcher × List BatchEvent :=
  let b := { b with timer := b.timer.drain }
  if 0 < b.batch.length then flushed faults b else (b, [])

/-- What happens without a caller: the loop takes what is ready, and the timer runs. -/
inductive LoopStep (b : Batcher) : List BatchEvent → Batcher → Prop where
  | receive {req : WriteRequest} {inbox : List WriteRequest} (faults : FlushFaults) :
      b.inbox = req :: inbox →
      LoopStep b (receive req faults { b with inbox := inbox }).2
        (receive req faults { b with inbox := inbox }).1
  | tick (faults : FlushFaults) : b.timer.ready = true → LoopStep b (b.tick faults).2 (b.tick faults).1
  | fire : b.timer.running = true → LoopStep b [] { b with timer := b.timer.fire }
  | arrive : 0 < b.timer.late → LoopStep b [] { b with timer := b.timer.arrive }

inductive Step : List BatchEvent → Batcher → List BatchEvent → Batcher → Prop where
  | submit {history : List BatchEvent} {b : Batcher} (write : Write) :
      Step history b [.submitted write] (b.submit write)
  | loop {history events : List BatchEvent} {b after : Batcher} :
      LoopStep b events after → Step history b events after

abbrev Runs := Run Step

def submissions (history : List BatchEvent) : List Write :=
  history.filterMap fun
    | .submitted write => some write
    | _ => none

def answers (history : List BatchEvent) : List (Nat × Option Err) :=
  history.filterMap fun
    | .answered number err => some (number, err)
    | _ => none

def successful (writes : List Write) (results : List (Option Err)) : List Write :=
  (writes.zip results).filterMap fun (write, err) => if err = none then some write else none

/-- `SaveMessage` without a batcher, one after the other. -/
def direct (writes : List Write) (db : Db) : Db :=
  writes.foldl (fun db write => (saveMessage write.1 write.2 none db).2) db

def requests : Nat → List Write → List WriteRequest
  | _, [] => []
  | first, write :: rest => writeRequest first write :: requests (first + 1) rest

theorem requests_eq_append {first : Nat} {writes : List Write} {batch inbox : List WriteRequest}
    (h : requests first writes = batch ++ inbox) :
    ∃ part rest, writes = part ++ rest ∧ batch = requests first part ∧
      inbox = requests (first + part.length) rest := by
  induction batch generalizing first writes with
  | nil => exact ⟨[], writes, rfl, rfl, h.symm⟩
  | cons req batch ih =>
    cases writes with
    | nil => cases h
    | cons write writes =>
      rw [requests, cons_append, List.cons.injEq] at h
      obtain ⟨part, rest, rfl, rfl, rfl⟩ := ih h.2
      refine ⟨write :: part, rest, rfl, ?_, ?_⟩
      · rw [requests, h.1]
      · rw [length_cons, Nat.add_right_comm, Nat.add_assoc]

theorem requests_append (first : Nat) (left right : List Write) :
    requests first (left ++ right) =
      requests first left ++ requests (first + left.length) right := by
  induction left generalizing first with
  | nil => rfl
  | cons write left ih =>
    rw [cons_append, requests, requests, ih, cons_append, length_cons,
      Nat.add_right_comm, Nat.add_assoc]

theorem answers_requests (first : Nat) (writes : List Write) (err : Option Err) :
    ((requests first writes).map fun req => (req.number, err)) =
      (List.range' first writes.length).zip (List.replicate writes.length err) := by
  induction writes generalizing first with
  | nil => rfl
  | cons write writes ih =>
    rw [requests, map_cons, ih]
    rfl

theorem foldl_requests (first : Nat) (writes : List Write) (db : Db) :
    (requests first writes).foldl (fun db req => db.set req.key req.data) db = direct writes db := by
  induction writes generalizing first db with
  | nil => rfl
  | cons write writes ih =>
    rw [requests, foldl_cons, ih]
    rfl

theorem setAll_eq {batch : List WriteRequest} {faults : Nat → Option String}
    {writes : List (Bytes × Bytes)} (h : setAll batch faults = .ok writes) :
    writes = batch.map fun req => (req.key, req.data) := by
  induction batch generalizing faults writes with
  | nil =>
    cases h
    rfl
  | cons req batch ih =>
    rw [setAll] at h
    split at h
    · cases h
    · cases hrest : setAll batch fun n => faults (n + 1) with
      | error err =>
        rw [hrest] at h
        cases h
      | ok later =>
        rw [hrest] at h
        cases h
        rw [ih hrest, map_cons]

theorem flush_cases (faults : FlushFaults) (batch : List WriteRequest) (db : Db) :
    (flush faults batch db).1 = none ∧
        (flush faults batch db).2 = batch.foldl (fun db req => db.set req.key req.data) db ∨
      (flush faults batch db).1 ≠ none ∧ (flush faults batch db).2 = db := by
  unfold flush
  split
  · exact .inr ⟨nofun, rfl⟩
  · rename_i writes hwrites
    simp only [setAll_eq hwrites, foldl_map, update]
    split
    · exact .inr ⟨nofun, rfl⟩
    · exact .inl ⟨rfl, rfl⟩

theorem successful_append {done part : List Write} {results : List (Option Err)} (err : Option Err)
    (h : results.length = done.length) :
    successful (done ++ part) (results ++ List.replicate part.length err) =
      successful done results ++ if err = none then part else [] := by
  have hpart : (part.zip (List.replicate part.length err)).filterMap
      (fun (write, err) => if err = none then some write else none) =
        if err = none then part else [] := by
    induction part with
    | nil => split <;> rfl
    | cons write part ih =>
      rw [length_cons, replicate_succ, zip_cons_cons, filterMap_cons, ih]
      by_cases herr : err = none
      · simp [herr]
      · simp [herr]
  rw [successful, zip_append h.symm, filterMap_append, hpart, successful]

theorem direct_append (left right : List Write) (db : Db) :
    direct (left ++ right) db = direct right (direct left db) := foldl_append

/-- What has been submitted is answered, in the order of the inbox, or waits; the store
is that of the direct writes whose callers were told of no error. -/
def Split (start : Db) (history : List BatchEvent) (waiting : List WriteRequest) (db : Db) : Prop :=
  ∃ done later results, submissions history = done ++ later ∧ results.length = done.length ∧
    answers history = (List.range done.length).zip results ∧
    waiting = requests done.length later ∧ db = direct (successful done results) start

section Flush
variable {start db : Db} {history : List BatchEvent} {batch inbox : List WriteRequest}

theorem Split.flush (h : Split start history (batch ++ inbox) db) (faults : FlushFaults) (size : Nat) :
    Split start (history ++ .flushed size :: batch.map fun req =>
      .answered req.number (flush faults batch db).1) inbox (flush faults batch db).2 := by
  obtain ⟨done, later, results, hsubmitted, hlength, hanswers, hwaiting, rfl⟩ := h
  obtain ⟨part, rest, rfl, hbatch, hinbox⟩ := requests_eq_append hwaiting.symm
  generalize herr : (Badger.flush faults batch (direct (successful done results) start)).1 = err
  refine ⟨done ++ part, rest, results ++ List.replicate part.length err, ?_, ?_, ?_, ?_, ?_⟩
  · have hnone : submissions (.flushed size :: batch.map fun req => .answered req.number err) = [] := by
      simp [submissions]
    rw [submissions, filterMap_append]
    change submissions history ++ submissions _ = _
    rw [hnone, hsubmitted, append_nil, append_assoc]
  · rw [length_append, length_append, length_replicate, hlength]
  · have hnew : answers (.flushed size :: batch.map fun req => .answered req.number err) =
        batch.map fun req => (req.number, err) := by simp [answers]
    rw [answers, filterMap_append]
    change answers history ++ answers _ = _
    rw [hnew, hanswers, hbatch, answers_requests, length_append, range_eq_range',
      range_eq_range', ← range'_append_1, zip_append (by simp [hlength]), Nat.zero_add]
  · rw [hinbox, length_append]
  · rw [successful_append err hlength, direct_append]
    rcases flush_cases faults batch (direct (successful done results) start) with
      ⟨hnone, hdb⟩ | ⟨hsome, hdb⟩
    · rw [hdb, hbatch, foldl_requests, ← herr, if_pos hnone]
    · rw [hdb, ← herr, if_neg hsome]
      rfl

theorem Split.submit {waiting : List WriteRequest} (h : Split start history waiting db)
    (write : Write) : Split start (history ++ [.submitted write])
      (waiting ++ [writeRequest (submissions history).length write]) db := by
  obtain ⟨done, later, results, hsubmitted, hlength, hanswers, rfl, hdb⟩ := h
  refine ⟨done, later ++ [write], results, ?_, hlength, ?_, ?_, hdb⟩
  · rw [submissions, filterMap_append]
    change submissions history ++ [write] = _
    rw [hsubmitted, append_assoc]
  · rw [answers, filterMap_append]
    change answers history ++ [] = _
    rw [append_nil, hanswers]
  · rw [requests_append, hsubmitted, length_append]
    rfl

end Flush

structure Faithful (start : Db) (history : List BatchEvent) (b : Batcher) : Prop where
  split : Split start history (b.batch ++ b.inbox) b.db
  submitted : b.submitted = (submissions history).length
  room : b.batch.length < b.maxSize
  sizes : ∀ size, .flushed size ∈ history → size ≤ b.maxSize

/-- Writes that wait in the batch will be flushed by the timer. -/
def Armed (b : Batcher) : Prop := b.batch ≠ [] → b.timer.Pending

section Steps
variable {start : Db} {history events : List BatchEvent} {b after : Batcher}

theorem faithful_started {maxSize : Nat} (hmax : 1 ≤ maxSize) (start : Db) :
    Faithful start [] (started maxSize start) where
  split := ⟨[], [], [], rfl, rfl, rfl, rfl, rfl⟩
  submitted := rfl
  room := hmax
  sizes := nofun

theorem Faithful.submit (h : Faithful start history b) (write : Write) :
    Faithful start (history ++ [.submitted write]) (b.submit write) where
  split := by
    have hsplit := h.split.submit write
    rw [← h.submitted, append_assoc] at hsplit
    exact hsplit
  submitted := by
    rw [submissions, filterMap_append]
    change b.submitted + 1 = (submissions history ++ [write]).length
    rw [length_append, h.submitted]
    rfl
  room := h.room
  sizes size hmem := h.sizes size (by simpa using hmem)

theorem flushed_faithful (hsplit : Split start history (b.batch ++ b.inbox) b.db)
    (hsubmitted : b.submitted = (submissions history).length) (hsize : b.batch.length ≤ b.maxSize)
    (hpos : 0 < b.maxSize) (hsizes : ∀ size, .flushed size ∈ history → size ≤ b.maxSize)
    (faults : FlushFaults) :
    Faithful start (history ++ (b.flushed faults).2) (b.flushed faults).1 where
  split := hsplit.flush faults b.batch.length
  submitted := by
    have hnone : submissions (b.flushed faults).2 = [] := by simp [flushed, submissions]
    rw [submissions, filterMap_append]
    change b.submitted = (submissions history ++ submissions _).length
    rw [hnone, append_nil, hsubmitted]
  room := hpos
  sizes size hmem := by
    rcases mem_append.mp hmem with hold | hnew
    · exact hsizes size hold
    · have hsame : size = b.batch.length := by simpa [flushed] using hnew
      rw [hsame]
      exact hsize

theorem Faithful.receive {req : WriteRequest} {inbox : List WriteRequest} (h : Faithful start history b)
    (hinbox : b.inbox = req :: inbox) (faults : FlushFaults) :
    Faithful start (history ++ (Batcher.receive req faults { b with inbox := inbox }).2)
      (Batcher.receive req faults { b with inbox := inbox }).1 := by
  have hsplit := h.split
  rw [hinbox, ← singleton_append, ← append_assoc] at hsplit
  have hroom := h.room
  have hlength : (b.batch ++ [req]).length = b.batch.length + 1 := by simp
  simp only [Batcher.receive]
  split
  · refine flushed_faithful ?_ ?_ ?_ ?_ ?_ faults
    · exact hsplit
    · exact h.submitted
    · exact hlength ▸ hroom
    · exact Nat.zero_lt_of_lt hroom
    · exact h.sizes
  · rename_i hmore
    rw [append_nil]
    exact ⟨hsplit, h.submitted, Nat.lt_of_not_le hmore, h.sizes⟩

theorem Faithful.tick (h : Faithful start history b) (faults : FlushFaults) :
    Faithful start (history ++ (b.tick faults).2) (b.tick faults).1 := by
  have hroom := h.room
  simp only [Batcher.tick]
  split
  · refine flushed_faithful ?_ ?_ ?_ ?_ ?_ faults
    · exact h.split
    · exact h.submitted
    · exact Nat.le_of_lt hroom
    · exact Nat.zero_lt_of_lt hroom
    · exact h.sizes
  · rw [append_nil]
    exact ⟨h.split, h.submitted, hroom, h.sizes⟩

theorem Faithful.loop (h : Faithful start history b) (hstep : LoopStep b events after) :
    Faithful start (history ++ events) after := by
  cases hstep with
  | receive faults hinbox => exact h.receive hinbox faults
  | tick faults => exact h.tick faults
  | fire | arrive =>
    rw [append_nil]
    exact ⟨h.split, h.submitted, h.room, h.sizes⟩

/-- The first write of a batch starts the timer, which is stopped or used up only by a flush. -/
theorem Armed.loop (h : Armed b) (hstep : LoopStep b events after) : Armed after := by
  cases hstep with
  | @receive req inbox faults hinbox =>
    simp only [Batcher.receive]
    split
    · exact fun hbatch => absurd rfl hbatch
    · intro _
      by_cases hfirst : b.batch.length = 0
      · rw [if_pos hfirst]
        exact .inl rfl
      · rw [if_neg hfirst]
        exact h (mt length_eq_zero_iff.mpr hfirst)
  | tick faults =>
    simp only [Batcher.tick]
    split
    · exact fun hbatch => absurd rfl hbatch
    · rename_i hempty
      exact fun hbatch => absurd (length_eq_zero_iff.mp (Nat.eq_zero_of_not_pos hempty)) hbatch
  | fire => exact fun _ => .inr (.inl (Nat.succ_pos _))
  | arrive => exact fun _ => .inr (.inr rfl)

/-- A bound on the steps that the loop and the timer can still take. -/
def work (b : Batcher) : Nat := 4 * b.inbox.length + b.timer.weight

theorem work_flushed (faults : FlushFaults) (b : Batcher) : (b.flushed faults).1.work = b.work := rfl

theorem work_lt (hstep : LoopStep b events after) : after.work < b.work := by
  cases hstep with
  | @receive req inbox faults hinbox =>
    have htimer : (if b.batch.length = 0 then b.timer.reset else b.timer).weight ≤
        b.timer.weight + 3 := by
      split
      · exact b.timer.weight_reset_le
      · exact Nat.le_add_right _ _
    have hinbox : b.inbox.length = inbox.length + 1 := by rw [hinbox, length_cons]
    simp only [Batcher.receive]
    generalize (if b.batch.length = 0 then b.timer.reset else b.timer) = timer at htimer
    have hstop := timer.weight_stop_le
    have hdrain := timer.stop.2.weight_drain_le
    split
    · rw [work_flushed]
      split
      · rename_i hstopped
        rw [hstopped] at hstop
        dsimp only [work] at hstop ⊢
        omega
      · rename_i hstopped
        rw [hstopped] at hstop hdrain
        dsimp only [work] at hstop hdrain ⊢
        omega
    · simp only [work]
      omega
  | tick faults hready =>
    have hdrain : b.timer.drain.weight < b.timer.weight := by
      simp [Timer.weight, Timer.drain, hready]
    simp only [Batcher.tick]
    split
    · rw [work_flushed]
      exact Nat.add_lt_add_left hdrain _
    · exact Nat.add_lt_add_left hdrain _
  | fire hrunning =>
    refine Nat.add_lt_add_left ?_ _
    simp only [Timer.weight, Timer.fire, hrunning, Bool.toNat_false, Bool.toNat_true]
    omega
  | arrive hlate =>
    refine Nat.add_lt_add_left ?_ _
    have hready := b.timer.ready.toNat_le
    simp only [Timer.weight, Timer.arrive, Bool.toNat_true]
    omega

theorem Armed.answered (h : Armed b) (hidle : ∀ events after, ¬ LoopStep b events after) :
    b.batch ++ b.inbox = [] := by
  have hinbox : b.inbox = [] := by
    cases hfirst : b.inbox with
    | nil => rfl
    | cons req inbox => exact absurd (.receive ⟨fun _ => none, none⟩ hfirst) (hidle _ _)
  have hbatch : b.batch = [] := by
    by_contra hwaiting
    rcases h hwaiting with hrunning | hlate | hready
    · exact hidle _ _ (.fire hrunning)
    · exact hidle _ _ (.arrive hlate)
    · exact hidle _ _ (.tick ⟨fun _ => none, none⟩ hready)
  rw [hbatch, hinbox]
  rfl

theorem step_maxSize (hstep : Step history b events after) : after.maxSize = b.maxSize := by
  cases hstep with
  | submit write => rfl
  | loop hloop =>
    cases hloop with
    | receive faults hinbox =>
      simp only [Batcher.receive]
      split <;> rfl
    | tick faults =>
      simp only [Batcher.tick]
      split <;> rfl
    | fire => rfl
    | arrive => rfl

/-- The batcher against `SaveMessage` without one. Callers are answered once and in the
order of the inbox, with no error if and only if their write is one of those that make
the store, applied one at a time; no batch is larger than allowed; and without new
callers the loop comes to an end, with everyone answered. -/
theorem Runs.faithful {maxSize : Nat} (hmax : 1 ≤ maxSize)
    (run : Runs (started maxSize start) history b) :
    (∃ done waiting results, submissions history = done ++ waiting ∧
      results.length = done.length ∧
      answers history = (List.range done.length).zip results ∧
      b.batch ++ b.inbox = requests done.length waiting ∧
      b.db = direct (successful done results) start) ∧
    (∀ size, .flushed size ∈ history → size ≤ maxSize) ∧
    (∀ events after, LoopStep b events after → after.work < b.work) ∧
    ((∀ events after, ¬ LoopStep b events after) → b.batch ++ b.inbox = []) := by
  have ⟨h, harmed, hsize⟩ := run.invariant
    (fun history b => Faithful start history b ∧ Armed b ∧ b.maxSize = maxSize)
    ⟨faithful_started hmax start, fun hbatch => absurd rfl hbatch, rfl⟩ fun ⟨h, harmed, hsize⟩ hstep => by
      refine ⟨?_, ?_, (step_maxSize hstep).trans hsize⟩
      · cases hstep with
        | submit write => exact h.submit write
        | loop hloop => exact h.loop hloop
      · cases hstep with
        | submit write => exact harmed
        | loop hloop => exact harmed.loop hloop
  exact ⟨h.split, hsize ▸ h.sizes, fun _ _ => work_lt, harmed.answered⟩

def order (id : Bytes) : Write := ([], ⟨id, [113], [1], ∅, 0, 0, 0, [], 0⟩)

def succeed : FlushFaults := ⟨fun _ => none, none⟩

def diskFull : FlushFaults := ⟨fun _ => none, some "disk full"⟩

/-- The timer flushes the first write; the next two, of which one has its key, fill a batch
whose flush fails. -/
theorem faithful_three_writes : ∃ history b, Runs (started 2 OrderedStore.empty) history b ∧
    answers history = [(0, none), (1, some (.storage "disk full")), (2, some (.storage "disk full"))] ∧
    b.db = direct [order [7]] OrderedStore.empty ∧
    ∀ size, .flushed size ∈ history → size ≤ 2 := by
  have first : Runs (started 2 OrderedStore.empty) _ _ :=
    (Run.start.next (.submit (order [7]))).next (.loop (.receive succeed rfl))
  have ticked := ((first.next (.loop (.fire rfl))).next (.loop (.arrive (by decide)))).next
    (.loop (.tick succeed rfl))
  have submitted := (ticked.next (.submit (order [7]))).next (.submit (order [8]))
  have filled := (submitted.next (.loop (.receive diskFull rfl))).next (.loop (.receive diskFull rfl))
  exact ⟨_, _, filled, rfl, rfl, (Runs.faithful (by decide) filled).2.1⟩

end Steps

end Batcher

end QwerQ.Badger
