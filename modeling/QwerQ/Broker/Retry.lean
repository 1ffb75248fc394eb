import QwerQ.Broker.Durability
import QwerQ.Group.Ledger
import QwerQ.Queue.Live
import QwerQ.Queue.Registry

/-! `RetryDLQ` over a storage whose calls may fail. Each round moves the head of the
DLQ or leaves everything as it was, so that the messages are split at one index; a
round that reaches a nil queue or an `Enqueue` that panics does not return at all. -/
namespace QwerQ
open List Process Disk KeyedMap Option Queue World

def Err.rollbackFailed : Err → Bool
  | .retryRollback _ _ _ _ _ | .retryRestore _ _ _ _ _ | .retryUnsave _ _ _ _ => true
  | _ => false

/-- The pending messages of the DLQ are stored under it, and neither stored nor live
in the original queue, whose assigned consumers are registered. -/
structure Retriable (name : String) (dlq : Queue) (w : World) : Prop where
  present : w.disk.present = true
  queue : w.queue? (dlqName name) = some dlq
  distinct : (dlq.messages.map Message.id).Nodup
  placed : ∀ msg ∈ dlq.messages, msg.queue = dlqName name
  stored : ∀ msg ∈ dlq.messages, w.HasRecord (dlqName name) msg.id
  unstored : ∀ msg ∈ dlq.messages, ¬ w.HasRecord name msg.id
  fresh : ∀ msg ∈ dlq.messages, msg.id ∉ (w.queueAt name).ids
  routed : (w.queueAt name).Routed

/-- The copies enter the queue one after the other, from round `i` on. -/
def Queue.Takes (name : String) (env : Nat → RetryEnv) : Nat → List Message → Queue → Queue → Prop
  | _, [], q, q' => q' = q
  | i, msg :: rest, q, q' => q.full = false ∧ ∃ next,
      q.enqueueDirect (retryCopy name msg (env i).now) (env i).enqueue = .ok next ∧
        Takes name env (i + 1) rest next q'

/-- A round that ends the loop with an error: one of its two storage calls fails, or
the queue is full. -/
def RoundStops (original : Option Queue) (fails : Nat → Prop) : Prop :=
  fails 0 ∨ fails 1 ∨ ∃ q, original = some q ∧ q.full = true

/-- No round from `i` on panics: it stops the loop, or there is a queue and its groups take
the copy. -/
def Unbroken (name : String) (env : Nat → RetryEnv) :
    Nat → List Message → Option Queue → (Nat → Prop) → Prop
  | _, [], _, _ => True
  | i, msg :: rest, original, fails =>
      RoundStops original fails ∨ ∃ q, original = some q ∧ q.Admits (env i).enqueue ∧
        ∀ next, q.enqueueDirect (retryCopy name msg (env i).now) (env i).enqueue = .ok next →
          Unbroken name env (i + 1) rest (some next) fun n => fails (n + 2)

def RetryUnbroken (name : String) (env : Nat → RetryEnv) (dlq : Queue) (w : World) : Prop :=
  Unbroken name env 0 dlq.messages (w.got name) fun n => w.disk.fails (n + creationCalls name w)

variable {w w' : World} {name : String} {dlq q next left : Queue} {msg : Message}
  {rest : List Message} {post : Option Err → World → Prop} {ptr : Option String} {now : Time}

theorem Queue.Takes.ids {env : Nat → RetryEnv} {i : Nat} {msgs : List Message} {q q' : Queue}
    (h : Queue.Takes name env i msgs q q') : q'.ids = q.ids ∪ {id | id ∈ msgs.map Message.id} := by
  induction msgs generalizing i q with
  | nil =>
    rw [show q' = q from h]
    simp
  | cons msg rest ih =>
    have ⟨_, next, hdirect, hrest⟩ := h
    rw [ih hrest, enqueueDirect_ids hdirect]
    ext id
    simp only [Set.mem_union, Set.mem_insert_iff, Set.mem_ofPred_eq, map_cons, mem_cons,
      retryCopy]
    tauto

theorem Retriable.name_eq (h : Retriable name dlq w) : dlq.name = dlqName name :=
  queue?_name h.queue

structure Unmoved (name : String) (msg : Message) (w w' : World) : Prop where
  present : w'.disk.present = true
  queues : ∀ other, w'.queue? other = w.queue? other
  stored : w'.HasRecord (dlqName name) msg.id
  records : ∀ key, key ≠ (dlqName name, msg.id) →
    w'.disk.storage.messages.find? key = w.disk.storage.messages.find? key

theorem Unmoved.queueAt (h : Unmoved name msg w w') : w'.queueAt name = w.queueAt name := by
  rw [World.queueAt, h.queues, World.queueAt]

def retryWrites (name : String) (msg : Message) (now : Time) (s : Storage) : Storage :=
  (s.saveMessage (retryCopy name msg now)).deleteMessage (dlqName name) msg.id

theorem find?_retryWrites (s : Storage) (key : String × String) :
    (retryWrites name msg now s).messages.find? key =
      if key = (dlqName name, msg.id) then none
      else if key = (name, msg.id) then some (retryCopy name msg now)
      else s.messages.find? key := by
  rw [retryWrites, Storage.deleteMessage, find?_erase, Storage.saveMessage, find?_insert]
  rfl

section Round
variable {env : RetryEnv}

/-- A round that has taken back its copy, with the record of the DLQ in place. -/
theorem unmoved_of_records {before : Storage} (h : Retriable name dlq w) (hmem : msg ∈ dlq.messages)
    (hpresent : w'.disk.present = true) (hqueues : ∀ other, w'.queue? other = w.queue? other)
    (hstorage : w'.disk.storage = before.deleteMessage name msg.id)
    (hstored : (before.messages.find? (dlqName name, msg.id)).isSome)
    (hothers : ∀ key, key ≠ (name, msg.id) → key ≠ (dlqName name, msg.id) →
      before.messages.find? key = w.disk.storage.messages.find? key) :
    Unmoved name msg w w' := by
  have hfind (key : String × String) : w'.disk.storage.messages.find? key =
      if key = (name, msg.id) then none else before.messages.find? key := by
    rw [hstorage, Storage.deleteMessage, find?_erase]
  refine ⟨hpresent, hqueues, ?_, fun key hkey => ?_⟩
  · rw [World.HasRecord, hfind, if_neg fun heq => dlqName_ne name (Prod.mk.inj heq).1]
    exact hstored
  · rw [hfind]
    split
    · rename_i hname
      rw [hname, not_isSome_iff_eq_none.mp (h.unstored msg hmem)]
    · exact hothers key ‹_› hkey

def retryTaking (name : String) (q : Option String) (msg : Message) (env : RetryEnv) :
    Prog (Option Err) := do
  if let some err ← enqueue q (retryCopy name msg env.now) env.enqueue then
    if let some rbErr ← saveMessage msg then
      return some (.retryRestore msg.id name err (dlqName name) rbErr)
    if let some rbErr ← deleteMessage name msg.id then
      return some (.retryUnsave msg.id name err rbErr)
    return some err
  lockedPure (some (dlqName name)) (fun _ => .silent) fun dlq =>
    .ok ({ dlq with messages := dlq.messages.tail }, ())
  return none

def World.copied (name : String) (msg : Message) (now : Time) (w : World) : World :=
  { w with
    disk := (w.disk.wrote (Storage.saveMessage (retryCopy name msg now))).wrote
      (Storage.deleteMessage (dlqName name) msg.id) }

theorem copied_fails (now : Time) (n : Nat) :
    (w.copied name msg now).disk.fails n ↔ w.disk.fails (n + 2) := by
  rw [World.copied, wrote_fails, wrote_fails]

theorem copied_present (now : Time) :
    (w.copied name msg now).disk.present = w.disk.present := by
  rw [World.copied, wrote_present, wrote_present]

theorem copied_storage (hpresent : w.disk.present = true) :
    (w.copied name msg now).disk.storage = retryWrites name msg now w.disk.storage := by
  simp [World.copied, wrote, called, hpresent, retryWrites]

theorem returns_retryHead (hsave : ¬ w.disk.fails 0) (hdelete : ¬ w.disk.fails 1) :
    (retryHead name ptr msg env).Returns w post ↔
      (retryTaking name ptr msg env).Returns (w.copied name msg env.now) post := by
  have hnext := wrote_fails (d := w.disk) (Storage.saveMessage (retryCopy name msg env.now)) 0
  simp only [retryHead, saveMessage, deleteMessage, returns_bind, returns_write,
    write_of_not_fails _ hsave, write_of_not_fails _ (mt hnext.mp hdelete)]
  simp only [retryTaking, saveMessage, deleteMessage, returns_bind]
  rfl

/-- A round has ended the loop. It has moved nothing, unless it could not take back what it
wrote. -/
def Rejected (name : String) (msg : Message) (w : World) (err : Option Err) (w' : World) : Prop :=
  ∃ cause, err = some cause ∧ (cause.rollbackFailed = false →
    ∀ dlq, Retriable name dlq w → msg ∈ dlq.messages → Unmoved name msg w w')

theorem retryHead_fails (h : w.disk.fails 0 ∨ w.disk.fails 1) :
    (retryHead name ptr msg env).Returns w (Rejected name msg w) := by
  simp only [retryHead, saveMessage, deleteMessage, returns_bind, returns_write]
  by_cases hsave : w.disk.fails 0
  · obtain ⟨err, hwrite⟩ := write_of_fails (Storage.saveMessage (retryCopy name msg env.now)) hsave
    rw [hwrite]
    exact ⟨_, rfl, fun _ dlq hretry hmem =>
      ⟨hretry.present, fun _ => rfl, hretry.stored msg hmem, fun _ _ => rfl⟩⟩
  · obtain ⟨hpresent, hfault⟩ := h.resolve_left hsave
    have hsaved : w.disk.faults 0 = none := not_not.mp fun hfault => hsave ⟨hpresent, hfault⟩
    obtain ⟨text, htext⟩ := ne_none_iff_exists'.mp hfault
    simp only [returns_bind, returns_write, write_succeeded hpresent hsaved,
      write_failed (d := w.disk.called _) hpresent htext]
    split
    · exact ⟨_, rfl, fun h => by cases h⟩
    · rename_i _ hundone
      obtain ⟨hpresent', hstorage⟩ := write_unrefused (d := (w.disk.called _).called _) hpresent hundone
      refine ⟨_, rfl, fun _ dlq hretry hmem => ?_⟩
      have hothers (key : String × String) (hkey : key ≠ (name, msg.id)) :
          (w.disk.storage.saveMessage (retryCopy name msg env.now)).messages.find? key =
            w.disk.storage.messages.find? key := find?_insert_of_ne _ hkey
      refine unmoved_of_records hretry hmem hpresent' (fun _ => rfl) hstorage ?_ fun key hkey _ =>
        hothers key hkey
      exact (hothers _ fun heq => dlqName_ne name (Prod.mk.inj heq).1) ▸ hretry.stored msg hmem

theorem retryTaking_full (hq : w.queue? name = some q) (hfull : q.full = true) :
    (retryTaking name (some name) msg env).Returns (w.copied name msg env.now)
      (Rejected name msg w) := by
  have hq' : (w.copied name msg env.now).queue? name = some q := hq
  simp only [retryTaking, enqueue, saveMessage, deleteMessage, returns_bind, returns_lockedPure hq',
    Queue.enqueue, hfull, if_true]
  refine ⟨q, _, rfl, ?_⟩
  simp only [returns_bind, returns_write]
  split
  · exact ⟨_, rfl, fun h => by cases h⟩
  rename_i _ hrestore
  simp only [returns_bind, returns_write]
  split
  · exact ⟨_, rfl, fun h => by cases h⟩
  rename_i _ hunsave
  refine ⟨_, rfl, fun _ dlq hretry hmem => ?_⟩
  have hpresent : (w.copied name msg env.now).disk.present = true :=
    (copied_present env.now).trans hretry.present
  obtain ⟨hpresent', hrestored⟩ := write_unrefused (d := ((w.copied _ _ _).setQueue q).disk) hpresent
    hrestore
  obtain ⟨hpresent'', hunsaved⟩ := write_unrefused hpresent' hunsave
  rw [hrestored, setQueue_disk, copied_storage hretry.present] at hunsaved
  have hfind (key : String × String) : ((retryWrites name msg env.now w.disk.storage).saveMessage
      msg).messages.find? key = if key = (dlqName name, msg.id) then some msg
        else (retryWrites name msg env.now w.disk.storage).messages.find? key := by
    rw [Storage.saveMessage, find?_insert, hretry.placed msg hmem]
  refine unmoved_of_records hretry hmem hpresent'' (queue?_setQueue_same hq) hunsaved ?_
    fun key hname hkey => ?_
  · rw [hfind, if_pos rfl]
    rfl
  · rw [hfind, if_neg hkey, find?_retryWrites, if_neg hkey, if_neg hname]

end Round

section Taken
variable {env : RetryEnv}

def World.takenBack (name : String) (msg : Message) (now : Time) (next dlq : Queue) (w : World) :
    World :=
  ((w.copied name msg now).setQueue next).setQueue dlq

theorem retryHead_stops (hptr : ptr = (w.queue? name).map fun _ => name)
    (hstops : RoundStops (w.queue? name) w.disk.fails) :
    (retryHead name ptr msg env).Returns w (Rejected name msg w) := by
  by_cases hfails : w.disk.fails 0 ∨ w.disk.fails 1
  · exact retryHead_fails hfails
  · obtain ⟨hsave, hdelete⟩ := not_or.mp hfails
    obtain ⟨q, hq, hfull⟩ := (hstops.resolve_left hsave).resolve_left hdelete
    rw [returns_retryHead hsave hdelete, hptr, hq]
    exact retryTaking_full hq hfull

theorem returns_retryHead_goes (hptr : ptr = (w.queue? name).map fun _ => name)
    (hdlq : w.queue? (dlqName name) = some dlq) (hhead : dlq.messages = msg :: rest)
    (hgoes : ¬ RoundStops (w.queue? name) w.disk.fails) :
    (retryHead name ptr msg env).Returns w post ↔
      ∃ q next, w.queue? name = some q ∧
        q.enqueueDirect (retryCopy name msg env.now) env.enqueue = .ok next ∧
        post none (w.takenBack name msg env.now next { dlq with messages := rest }) := by
  obtain ⟨hsave, hrest⟩ := not_or.mp hgoes
  obtain ⟨hdelete, hroom⟩ := not_or.mp hrest
  rw [returns_retryHead hsave hdelete, retryTaking, returns_bind, hptr]
  cases hq : w.queue? name with
  | none =>
    rw [map_none, enqueue, lockedPure]
    exact iff_of_false (not_returns_locked rfl) (by simp)
  | some q =>
    have hq' : (w.copied name msg env.now).queue? name = some q := hq
    have hfull : q.full = false := Bool.eq_false_iff.mpr fun hfull => hroom ⟨q, hq, hfull⟩
    have hdlq' {next : Queue} (hname : next.name = q.name) :
        ((w.copied name msg env.now).setQueue next).queue? (dlqName name) = some dlq := by
      refine (queue?_setQueue_of_ne _ ?_).trans hdlq
      rw [hname, queue?_name hq]
      exact dlqName_ne name
    simp only [map_some, enqueue, returns_lockedPure hq', Queue.enqueue, hfull,
      Bool.false_eq_true, if_false, Go.bind_eq_ok, Go.pure_eq]
    constructor
    · rintro ⟨next, _, ⟨_, hdirect, ⟨⟩⟩, hpost⟩
      simp only [returns_bind, returns_lockedPure (hdlq' (enqueueDirect_name hdirect)), hhead] at hpost
      obtain ⟨_, _, hpop, hdone⟩ := hpost
      cases hpop
      exact ⟨q, next, rfl, hdirect, hdone⟩
    · rintro ⟨_, next, hsame, hdirect, hpost⟩
      obtain rfl := Option.some.inj hsame
      refine ⟨next, none, ⟨next, hdirect, rfl⟩, ?_⟩
      simp only [returns_bind, returns_lockedPure (hdlq' (enqueueDirect_name hdirect)), hhead]
      exact ⟨_, _, rfl, hpost⟩

theorem takenBack_dlq (hleft : left.name = dlqName name)
    (hname : next.name = name) :
    (w.takenBack name msg now next left).queue? (dlqName name) = some left :=
  (queue?_replaced _ hname hleft).2

theorem takenBack_queue (hleft : left.name = dlqName name)
    (hname : next.name = name) :
    (w.takenBack name msg now next left).queue? name = some next :=
  (queue?_replaced _ hname hleft).1

end Taken

section Loop
variable {env : Nat → RetryEnv} {i n : Nat} {err : Option Err}

theorem takenBack_next (rest : List Message) {passes : Env} (hq : w.queue? name = some q)
    (hdlq : w.queue? (dlqName name) = some dlq)
    (hdirect : q.enqueueDirect (retryCopy name msg now) passes = .ok next) :
    let w' := w.takenBack name msg now next { dlq with messages := rest }
    w'.queue? name = some next ∧ w'.queue? (dlqName name) = some { dlq with messages := rest } ∧
      w'.disk.fails = fun n => w.disk.fails (n + 2) := by
  have hname : next.name = name := (enqueueDirect_name hdirect).trans (queue?_name hq)
  have hdlqName : dlq.name = dlqName name := queue?_name hdlq
  have hleft : Queue.name { dlq with messages := rest } = dlqName name := hdlqName
  exact ⟨takenBack_queue hleft hname, takenBack_dlq hleft hname,
    funext fun n => propext (copied_fails now n)⟩

theorem retryLoop_returns_iff (hdlq : w.queue? (dlqName name) = some dlq)
    (hptr : ptr = (w.queue? name).map fun _ => name)
    (hrouted : ∀ q, w.queue? name = some q → q.Routed) :
    ((retryLoop name ptr env dlq.messages.length i).Returns w fun _ _ => True) ↔
      Unbroken name env i dlq.messages (w.queue? name) w.disk.fails := by
  generalize hpending : dlq.messages = pending
  induction pending generalizing i w dlq with
  | nil => exact iff_of_true trivial trivial
  | cons msg rest ih =>
    simp only [length_cons, retryLoop, returns_bind, returns_look, hdlq, bind_some, hpending,
      head?_cons]
    rw [Unbroken]
    by_cases hstops : RoundStops (w.queue? name) w.disk.fails
    · refine iff_of_true ((retryHead_stops hptr hstops).mono ?_) (.inl hstops)
      rintro _ _ ⟨cause, rfl, _⟩
      trivial
    rw [or_iff_right hstops, returns_retryHead_goes hptr hdlq hpending hstops]
    have hlater {q next : Queue} (hq : w.queue? name = some q)
        (hdirect : q.enqueueDirect (retryCopy name msg (env i).now) (env i).enqueue = .ok next) :
        ((retryLoop name ptr env rest.length (i + 1)).Returns
            (w.takenBack name msg (env i).now next { dlq with messages := rest }) fun _ _ => True) ↔
          Unbroken name env (i + 1) rest (some next) fun n => w.disk.fails (n + 2) := by
      obtain ⟨hnext, hdlq', hfails⟩ := takenBack_next rest hq hdlq hdirect
      rw [← hnext, ← hfails]
      refine ih hdlq' (by rw [hnext, hptr, hq, map_some, map_some]) (fun q' hq' => ?_) rfl
      rw [hnext] at hq'
      cases hq'
      exact (enqueueDirect_undisturbed hdirect).routed (hrouted q hq)
    constructor
    · rintro ⟨q, next, hq, hdirect, hrest⟩
      refine ⟨q, hq, (enqueueDirect_ok_iff_admits (hrouted q hq) _ _).mp ⟨next, hdirect⟩,
        fun other hother => ?_⟩
      cases hdirect.symm.trans hother
      exact (hlater hq hdirect).mp hrest
    · rintro ⟨q, hq, hadmits, hrest⟩
      obtain ⟨next, hdirect⟩ := (enqueueDirect_ok_iff_admits (hrouted q hq) _ _).mpr hadmits
      exact ⟨q, next, hq, hdirect, (hlater hq hdirect).mpr (hrest next hdirect)⟩

end Loop

section Call
variable {env : Nat → RetryEnv} {n : Nat} {err : Option Err}

theorem returns_retryDLQ {post : Nat × Option Err → World → Prop}
    (hdlq : w.queue? (dlqName name) = some dlq) :
    (retryDLQ name env).Returns w post ↔
      (retryLoop name (((createQueue name w).2.queue? name).map fun _ => name) env
        dlq.messages.length 0).Returns (createQueue name w).2 post := by
  have ⟨hptr, hopened⟩ := createQueue_opened name w
  have hdlq' := (hopened.others _ (dlqName_ne name)).trans hdlq
  rw [retryDLQ, returns_found hdlq]
  simp only [returns_bind, returns_getOrCreateQueue, returns_look, hdlq', hptr]
  rfl

theorem retryDLQ_returns_iff (hrouted : (w.queueAt name).Routed)
    (hdlq : w.queue? (dlqName name) = some dlq) :
    ((retryDLQ name env).Returns w fun _ _ => True) ↔ RetryUnbroken name env dlq w := by
  have hopened := (createQueue_opened name w).2
  rw [returns_retryDLQ hdlq, retryLoop_returns_iff ((hopened.others _ (dlqName_ne name)).trans hdlq)
    rfl, RetryUnbroken, ← hopened.found, funext fun n => propext (hopened.fails n)]
  intro q hq
  rw [← queueAt_of_some hq, hopened.queueAt]
  exact hrouted

end Call

end QwerQ
