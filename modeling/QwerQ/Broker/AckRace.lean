import QwerQ.Broker.DeadLetter
import QwerQ.Broker.Trace

/-! A nack moves a message to the DLQ while consumers of the DLQ settle it. The DLQ
has the message before its record is written, so an ack can come in between. -/
namespace QwerQ
open List Process
variable {name id groupName : String} {w w' : World}

/-- A consumer's call saves no record and deletes none but the acked one. -/
def Label.Consumes : Label → Prop
  | .silent | .create _ | .acked _ _ _ => True
  | _ => False

def Consuming (w : World) (label : Label) (w' : World) : Prop := Noted w label w' ∧ label.Consumes

theorem consuming_silent (w : World) : Consuming w .silent w := ⟨noted_silent w, trivial⟩

theorem noted_ack {q : Queue} (hdisk : w'.disk = (q.inFlightIn groupName id).elim w.disk
      fun _ => (w.disk.write (Storage.deleteMessage q.name id)).2) :
    Noted w (ackLabel groupName id q w.disk) w' := by
  cases hfound : q.inFlightIn groupName id with
  | none =>
    rw [hfound] at hdisk
    refine noted_keep (fun queue other => ?_) hdisk
    simp [ackLabel, hfound, Label.onRecord]
  | some msg =>
    rw [hfound] at hdisk
    intro hsound
    have hlabel : ackLabel groupName id q w.disk = .acked q.name id true := by
      simp [ackLabel, hfound, hsound.write_eq]
    have hdeleted := noted_deleteMessage hdisk hsound
    rw [hlabel]
    simpa [Label.onRecord] using hdeleted

theorem handleAck_consuming (id queueName groupName : String) (pass : Pass) :
    (handleAck id queueName groupName pass).Every Consuming := by
  refine Every.bind (every_look consuming_silent _) fun found => ?_
  cases found with
  | false => trivial
  | true =>
    by_cases hgroup : groupName = ""
    · subst hgroup
      refine every_locked consuming_silent _ fun w name q q' disk result hptr hq hbody => ?_
      cases hptr
      rw [← World.queue?_name hq] at hbody
      refine ⟨noted_ack ?_, trivial⟩
      rw [inFlightIn_queue]
      exact (Queue.ackWithHook_cases hbody).state
    · simp only [Bool.not_true, Bool.false_eq_true, if_false, ne_eq, hgroup, not_false_eq_true,
        if_true]
      refine Every.bind (every_locked consuming_silent _ ?_) fun answer => ?_
      · intro w name q q' disk result hptr hq hbody
        cases hptr
        rw [← World.queue?_name hq] at hbody
        refine ⟨noted_ack ?_, trivial⟩
        rcases Queue.inGroup_cases hbody with ⟨hg, _, hdisk, _⟩ | ⟨g, g', value, hg, hack, _⟩
        · rw [inFlightIn_no_group hgroup hg]
          exact hdisk
        · rw [inFlightIn_group hgroup hg]
          exact (ConsumerGroup.ackWithHook_cases hack).state
      · cases answer <;> trivial

theorem handleConsume_consuming (queue : String) (visibilityTimeout : UInt32)
    (groupName memberID : String) (now : Time) (pass : Pass) :
    (handleConsume queue visibilityTimeout groupName memberID now pass).Every Consuming := by
  refine Every.bind (Every.bind ?_ fun failed => ?_) fun ptr => ?_
  · exact every_getOrCreateQueueWithError consuming_silent fun w => ⟨noted_createQueue queue w, trivial⟩
  · cases failed <;> trivial
  · by_cases hgroup : groupName = ""
    · rw [if_pos hgroup]
      exact every_lockedPure consuming_silent ptr
        fun _ _ _ _ _ _ _ _ => ⟨noted_keep (fun _ _ => rfl) rfl, trivial⟩
    · rw [if_neg hgroup]
      refine Every.bind (every_lockedPure consuming_silent ptr
        fun _ _ _ _ _ _ _ _ => ⟨noted_keep (fun _ _ => rfl) rfl, trivial⟩) fun _ => ?_
      refine every_locked consuming_silent ptr fun w _ q q' disk result _ _ hbody => ?_
      refine ⟨noted_keep (fun _ _ => rfl) ?_, trivial⟩
      rcases Queue.inGroup_cases hbody with ⟨_, _, hdisk, _⟩ | ⟨g, g', value, _, hjoin, _⟩
      · exact hdisk
      · rw [Go.bind_eq_ok] at hjoin
        have ⟨_, _, hret⟩ := hjoin
        cases hret
        rfl

/-- What the section of a nack does: the label it writes, the storage it leaves and
what it answers. -/
inductive Nacked (groupName id : String) (q : Queue) (disk : Disk) :
    Label → Disk → NackResult × Option Err → Prop where
  | silent {result : NackResult × Option Err} : Nacked groupName id q disk .silent disk result
  | dead (msg : Message) : msg.id = id →
      Nacked groupName id q disk (.deadLettered q.name id) disk (⟨true, some msg, true, false⟩, none)
  | dropped {result : NackResult × Option Err} :
      Nacked groupName id q disk (.delete q.name id)
        (disk.write (Storage.deleteMessage q.name id)).2 result
  | requeued (msg : Message) {result : NackResult × Option Err} : msg.id = id →
      Nacked groupName id q disk (.save msg.queue id)
        (disk.write (Storage.saveMessage msg)).2 result

section Nack
variable {requeue : Bool} {now : Time} {pass : Pass} {q q' : Queue} {disk disk' : Disk}
  {result : NackResult × Option Err}

theorem queue_nacked (h : q.nackWithHooks id requeue (deleteStored q.name id) persistRequeue now
      pass disk = .ok ((q', disk'), result)) :
    Nacked "" id q disk (nackLabel "" id requeue q disk) disk' result := by
  have hid {msg : Message} (hfind : q.inFlight.find? id = some msg) : msg.id = id :=
    (KeyedMap.find?_eq_some_iff.mp hfind).2
  unfold nackLabel
  rw [inFlightIn_queue]
  cases Queue.nackWithHooks_cases h with
  | missing hnone =>
    rw [hnone]
    exact .silent
  | toDLQ hfind hverdict =>
    simp only [hfind, hverdict]
    exact .dead _ (hid hfind)
  | dropped hfind hverdict hhook | keptFromDrop hfind hverdict hhook =>
    simp only [hfind, hverdict]
    cases congrArg Prod.snd hhook
    exact .dropped
  | @requeued msg _ _ hfind hverdict hhook _ | @keptFromRequeue msg _ _ hfind hverdict hhook =>
    simp only [hfind, hverdict, if_true]
    cases congrArg Prod.snd hhook
    exact .requeued { msg with visibleAt := now } (show msg.id = id from hid hfind)

theorem group_nacked {g g' : ConsumerGroup} (hgroup : groupName ≠ "")
    (hg : q.groups.find? groupName = some g)
    (h : g.nackWithHooks id requeue q.maxRetries q.failurePolicy (deleteStored q.name id) now
      pass disk = .ok ((g', disk'), result)) :
    Nacked groupName id q disk (nackLabel groupName id requeue q disk) disk' result := by
  unfold nackLabel
  rw [inFlightIn_group hgroup hg]
  cases ConsumerGroup.nackWithHooks_cases h with
  | missing hnone =>
    rw [hnone]
    exact .silent
  | toDLQ hfind hverdict =>
    have ⟨entry, hentry, hmsg⟩ := Option.map_eq_some_iff.mp hfind
    simp only [hfind, hverdict]
    exact .dead _ (hmsg ▸ (KeyedMap.find?_eq_some_iff.mp hentry).2)
  | dropped hfind hverdict hhook | keptFromDrop hfind hverdict hhook =>
    simp only [hfind, hverdict]
    cases congrArg Prod.snd hhook
    exact .dropped
  | requeued hfind hverdict hhook _ =>
    simp only [hfind, hverdict, if_neg hgroup]
    cases congrArg Prod.snd hhook
    exact .silent
  | keptFromRequeue _ _ hhook => cases hhook

theorem Nacked.noted {label : Label} (h : Nacked groupName id q w.disk label w'.disk result) :
    Noted w label w' := by
  generalize hdisk : w'.disk = disk' at h
  cases h with
  | silent | dead => exact noted_keep (fun _ _ => rfl) hdisk
  | dropped => exact noted_deleteMessage hdisk
  | requeued msg hid =>
    subst hid
    exact noted_saveMessage hdisk

end Nack

/-- After its section a nack decides nothing more. -/
def Moving (w : World) (label : Label) (w' : World) : Prop :=
  Noted w label w' ∧ ∀ queue id, label ≠ .deadLettered queue id

theorem moving_silent (w : World) : Moving w .silent w := ⟨noted_silent w, fun _ _ => nofun⟩

theorem moveToDLQ_moving (name : String) (msg : Message) (env : NackEnv) :
    (moveToDLQ name msg env).Every Moving := by
  refine Every.bind (Every.bind ?_ fun failed => ?_) fun dlq => ?_
  · exact every_getOrCreateQueueWithError moving_silent
      fun w => ⟨noted_createQueue _ w, fun _ _ => nofun⟩
  · cases failed <;> trivial
  · refine Every.bind (every_lockedPure moving_silent dlq ?_) fun final => ?_
    · exact fun _ _ _ _ _ _ _ _ => ⟨noted_keep (fun _ _ => rfl) rfl, fun _ _ => nofun⟩
    · refine Every.bind (every_write fun _ => ⟨noted_deleteMessage rfl, fun _ _ => nofun⟩) fun _ => ?_
      exact Every.bind (every_write fun _ => ⟨noted_saveMessage rfl, fun _ _ => nofun⟩) fun _ => trivial

theorem settleNack_moving (name : String) (env : NackEnv) (result : NackResult) (err : Option Err) :
    (settleNack name env result err).Every Moving := by
  unfold settleNack
  split
  · trivial
  · split
    · trivial
    · split
      · split
        · exact Every.bind (moveToDLQ_moving name _ env) fun _ => trivial
        · trivial
      · trivial

theorem handleNack_noted (id queueName groupName : String) (requeue : Bool) (env : NackEnv) :
    (handleNack id queueName groupName requeue env).Every Noted := by
  refine Every.bind (every_look noted_silent _) fun found => ?_
  cases found with
  | false => trivial
  | true =>
    by_cases hgroup : groupName = ""
    · subst hgroup
      refine Every.bind (every_locked noted_silent _ ?_) fun answer => ?_
      · intro w name q q' disk result hptr hq hbody
        cases hptr
        rw [← World.queue?_name hq] at hbody
        exact (queue_nacked hbody).noted
      · exact (settleNack_moving ..).mono fun _ _ _ h => h.1
    · simp only [Bool.not_true, Bool.false_eq_true, if_false, ne_eq, hgroup, not_false_eq_true,
        if_true]
      refine Every.bind (every_locked noted_silent _ ?_) fun answer => ?_
      · intro w name q q' disk result hptr hq hbody
        cases hptr
        rw [← World.queue?_name hq] at hbody
        rcases Queue.inGroup_cases hbody with ⟨hg, _, hdisk, _⟩ | ⟨g, g', value, hg, hnack, _⟩
        · refine noted_keep (fun queue other => ?_) hdisk
          simp [nackLabel, inFlightIn_no_group hgroup hg, Label.onRecord]
        · exact (group_nacked hgroup hg hnack).noted
      · cases answer with
        | none => trivial
        | some answer => exact (settleNack_moving ..).mono fun _ _ _ h => h.1

section Ways
variable {labels : List Label} {env : NackEnv} {reply : Bool × Option Err}

theorem way_moveToDLQ {msg : Message} {result : Unit}
    (h : Way (moveToDLQ name msg env) labels result) :
    ∃ first accepted, (first = [.silent] ∨ first = [.silent, .create (dlqName name)]) ∧
      labels = first ++ [.enqueue (dlqName name) msg.id accepted, .delete name msg.id,
        .save (dlqName name) msg.id] := by
  have ⟨dlq, _, _, hget, hrest, hlabels⟩ := h.bind_done
  have ⟨failed, first, _, hcreate, hpure, hgot⟩ := hget.bind_done
  have ⟨hnone, hfirst⟩ := way_getOrCreateQueueWithError hcreate
  subst hnone
  have ⟨hnil, hdlq⟩ := hpure.done_done
  subst hdlq
  have ⟨final, _, _, henqueue, hrest, hlater⟩ := hrest.bind_done
  have ⟨q, q', hname, hbody, hasked⟩ := way_lockedPure henqueue
  have hbody := (offered_iff.mp hbody).body
  have ⟨_, _, _, hdelete, hrest, hlast⟩ := hrest.bind_done
  have ⟨hdeleted, _⟩ := way_write hdelete
  have ⟨_, _, _, hsave, hrest, hend⟩ := hrest.bind_done
  have ⟨hsaved, _⟩ := way_write hsave
  have ⟨hdone, _⟩ := hrest.done_done
  refine ⟨first, !q.full, hfirst, ?_⟩
  have hqueue : final.queue = dlqName name := congrArg Body.queue hbody
  have hid : final.id = msg.id := congrArg Body.id hbody
  rw [hlabels, hgot, hlater, hlast, hend, hnil, hasked, hdeleted, hsaved, hdone, hname, hqueue, hid]
  simp

def DeadLettering (name id : String) (labels : List Label) : Prop :=
  ∃ first accepted, labels = first ++ [.enqueue (dlqName name) id accepted, .delete name id,
      .save (dlqName name) id] ∧
    ∀ label ∈ first, label = .silent ∨ label = .create (dlqName name) ∨ label = .deadLettered name id

theorem DeadLettering.cases (h : DeadLettering name id labels) {label : Label}
    (hmem : label ∈ labels) : label = .silent ∨ label = .create (dlqName name) ∨
      label = .deadLettered name id ∨ (∃ accepted, label = .enqueue (dlqName name) id accepted) ∨
      label = .delete name id ∨ label = .save (dlqName name) id := by
  have ⟨first, accepted, hlabels, hfirst⟩ := h
  rw [hlabels, mem_append] at hmem
  rcases hmem with hmem | hmem
  · have := hfirst label hmem
    tauto
  · simp only [mem_cons, not_mem_nil, or_false] at hmem
    rcases hmem with rfl | rfl | rfl <;> simp

theorem DeadLettering.deletes (h : DeadLettering name id labels) : .delete name id ∈ labels := by
  have ⟨first, accepted, hlabels, _⟩ := h
  simp [hlabels]

theorem DeadLettering.saves (h : DeadLettering name id labels) :
    labels.filter (fun label => label = .save (dlqName name) id) = [.save (dlqName name) id] := by
  have ⟨first, accepted, hlabels, hfirst⟩ := h
  have hnone : first.filter (fun label => label = .save (dlqName name) id) = [] := by
    refine filter_eq_nil_iff.mpr fun label hmem => ?_
    rcases hfirst label hmem with rfl | rfl | rfl <;> simp
  rw [hlabels, filter_append, hnone]
  simp

theorem way_settleNack {q : Queue} {disk disk' : Disk} {label : Label}
    {result : NackResult × Option Err} (hnacked : Nacked groupName id q disk label disk' result)
    (h : Way (settleNack q.name env result.1 result.2) labels reply)
    (hdead : .deadLettered q.name id ∈ .silent :: label :: labels) :
    DeadLettering q.name id (.silent :: label :: labels) := by
  have hlater : .deadLettered q.name id ∉ labels := fun hmem =>
    h.all ((settleNack_moving ..).mono fun _ label _ hstep => hstep.2) _ hmem _ _ rfl
  have hlabel : .deadLettered q.name id = label := by simpa [hlater] using hdead
  subst hlabel
  cases hnacked with
  | dead msg hid =>
    subst hid
    have h : Way (moveToDLQ q.name msg env >>= fun _ => pure (true, none)) labels reply := h
    have ⟨_, _, _, hmove, hrest, hlabels⟩ := h.bind_done
    have ⟨first, accepted, hfirst, hmoved⟩ := way_moveToDLQ hmove
    have ⟨hnil, _⟩ := hrest.done_done
    refine ⟨[.silent, .deadLettered q.name msg.id] ++ first, accepted, ?_, ?_⟩
    · rw [hlabels, hmoved, hnil]
      simp
    · rcases hfirst with rfl | rfl <;> simp

theorem way_handleNack {requeue : Bool}
    (h : Way (handleNack id name groupName requeue env) labels reply)
    (hdead : .deadLettered name id ∈ labels) : DeadLettering name id labels := by
  have ⟨found, _, _, hlook, hrest, hlabels⟩ := h.bind_done
  have hlooked := way_look hlook
  cases found with
  | false =>
    have ⟨hnil, _⟩ := hrest.done_done
    rw [hlabels, hlooked, hnil] at hdead
    simp at hdead
  | true =>
    by_cases hgroup : groupName = ""
    · subst hgroup
      have ⟨result, _, _, hlocked, hrest, hlater⟩ := hrest.bind_done
      have ⟨q, disk, next, hname, hbody, hsection⟩ := way_locked hlocked
      subst hname
      rw [hlabels, hlater, hlooked, hsection] at hdead ⊢
      exact way_settleNack (queue_nacked hbody) hrest hdead
    · simp only [Bool.not_true, Bool.false_eq_true, if_false, ne_eq, hgroup, not_false_eq_true,
        if_true] at hrest
      have ⟨result, _, _, hlocked, hrest, hlater⟩ := hrest.bind_done
      have ⟨q, disk, next, hname, hbody, hsection⟩ := way_locked hlocked
      subst hname
      rw [hlabels, hlater, hlooked, hsection] at hdead ⊢
      rcases Queue.inGroup_cases hbody with ⟨hg, _, _, hnone⟩ | ⟨g, g', value, hg, hnack, _, hsome⟩
      · subst hnone
        have ⟨hnil, _⟩ := hrest.done_done
        simp [hnil, nackLabel, inFlightIn_no_group hgroup hg] at hdead
      · subst hsome
        exact way_settleNack (group_nacked hgroup hg hnack) hrest hdead

end Ways

inductive ConsumerCall where
  | consume (visibilityTimeout : UInt32) (groupName memberID : String) (now : Time) (pass : Pass)
  | receive (ch : Nat)
  | ack (groupName : String) (pass : Pass)

inductive Reply where
  | settled (ok : Bool) (err : Option Err)
  | subscribed (ch : Option Nat)
  | received
  deriving DecidableEq, Repr

def ConsumerCall.program (queue id : String) : ConsumerCall → Prog Reply
  | .consume visibilityTimeout groupName memberID now pass => do
      return .subscribed (← handleConsume queue visibilityTimeout groupName memberID now pass)
  | .receive ch => do
      QwerQ.receive queue ch
      return .received
  | .ack groupName pass => do
      let (ok, err) ← handleAck id queue groupName pass
      return .settled ok err

def nackProgram (id name groupName : String) (requeue : Bool) (env : NackEnv) : Prog Reply := do
  let (ok, err) ← handleNack id name groupName requeue env
  return .settled ok err

theorem ConsumerCall.consuming (queue id : String) (call : ConsumerCall) :
    (call.program queue id).Every Consuming := by
  cases call with
  | consume visibilityTimeout groupName memberID now pass =>
    exact Every.bind (handleConsume_consuming queue visibilityTimeout groupName memberID now pass)
      fun _ => trivial
  | receive ch =>
    refine Every.bind (Every.bind (every_look consuming_silent _) fun found => ?_) fun _ => trivial
    cases found with
    | false => trivial
    | true =>
      exact every_lockedPure consuming_silent _
        fun _ _ _ _ _ _ _ _ => ⟨noted_keep (fun _ _ => rfl) rfl, trivial⟩
  | ack groupName pass => exact Every.bind (handleAck_consuming id queue groupName pass) fun _ => trivial

def nackRace (id name groupName : String) (requeue : Bool) (env : NackEnv)
    (calls : List ConsumerCall) : List (Prog Reply) :=
  nackProgram id name groupName requeue env :: calls.map (ConsumerCall.program (dlqName name) id)

section Race
variable {calls : List ConsumerCall} {requeue : Bool} {env : NackEnv}
  {trace : List (Nat × Label)} {rest : List (Prog Reply)} {reply : Reply}

theorem nackRace_noted :
    ∀ program ∈ nackRace id name groupName requeue env calls, program.Every Noted := by
  intro program hprogram
  rcases mem_cons.mp hprogram with rfl | hcall
  · exact Every.bind (handleNack_noted id name groupName requeue env) fun _ => trivial
  · have ⟨call, _, hcall⟩ := mem_map.mp hcall
    exact hcall ▸ (call.consuming (dlqName name) id).mono fun _ _ _ h => h.1

theorem mem_own_nack (run : Interleaves (nackRace id name groupName requeue env calls) w trace rest w')
    {label : Label} (hlabel : ¬ label.Consumes) {i : Nat} (hmem : (i, label) ∈ trace) : i = 0 := by
  cases i with
  | zero => rfl
  | succ i =>
    have hi : i + 1 < (nackRace id name groupName requeue env calls).length := run.turn_lt _ hmem
    have hlt : i < calls.length := by simpa [nackRace] using hi
    have hget : (nackRace id name groupName requeue env calls)[i + 1]? =
        some (calls[i].program (dlqName name) id) := by
      simp [nackRace, hlt]
    have hall := run.own_all hget ((calls[i].consuming _ id).mono fun _ label _ h => h.2)
    exact absurd (hall label (mem_own.mpr hmem)) hlabel

theorem mem_labels_iff (run : Interleaves (nackRace id name groupName requeue env calls) w trace rest w')
    (label : Label) (hlabel : ¬ label.Consumes) :
    label ∈ trace.map Prod.snd ↔ label ∈ own 0 trace := by
  rw [mem_own]
  constructor
  · intro hmem
    have ⟨⟨i, other⟩, hentry, heq⟩ := mem_map.mp hmem
    subst heq
    rwa [mem_own_nack run hlabel hentry] at hentry
  · exact fun hmem => mem_map.mpr ⟨_, hmem, rfl⟩

theorem deadLettering_of_run
    (run : Interleaves (nackRace id name groupName requeue env calls) w trace rest w')
    (hreturned : rest[0]? = some (.done reply)) (hsound : w.disk.Sound)
    (hdead : .deadLettered name id ∈ trace.map Prod.snd) : DeadLettering name id (own 0 trace) := by
  have hway : Way (nackProgram id name groupName requeue env) (own 0 trace) reply := by
    refine run.emits (fun program hprogram => ?_) hsound rfl hreturned
    exact (nackRace_noted program hprogram).mono fun _ _ _ hstep hs => (hstep hs).1
  have ⟨_, _, _, hnack, hrest, hlabels⟩ := hway.bind_done
  have ⟨hnil, _⟩ := hrest.done_done
  rw [hnil, append_nil] at hlabels
  rw [mem_labels_iff run (.deadLettered name id) not_false, hlabels] at hdead
  rw [hlabels]
  exact way_handleNack hnack hdead

section Outcome
variable (run : Interleaves (nackRace id name groupName requeue env calls) w trace rest w')
  (hsound : w.disk.Sound) (hnack : DeadLettering name id (own 0 trace))
include run hsound hnack

theorem not_hasRecord_source : ¬ w'.HasRecord name id := by
  have hsave : .save name id ∉ trace.map Prod.snd := by
    rw [mem_labels_iff run (.save name id) not_false]
    intro hmem
    simpa [(dlqName_ne name).symm] using hnack.cases hmem
  have hdelete : .delete name id ∈ trace.map Prod.snd :=
    (mem_labels_iff run (.delete name id) not_false).mpr hnack.deletes
  rw [World.HasRecord, ← Disk.hasRecord, noted_run run nackRace_noted hsound,
    record_iff_of_not_saved hsave]
  exact fun h => h.2.delete hdelete

theorem hasRecord_dlq_iff : w'.HasRecord (dlqName name) id ↔
    ¬ Follows (.acked (dlqName name) id true) (.save (dlqName name) id) (trace.map Prod.snd) := by
  have hdelete : .delete (dlqName name) id ∉ trace.map Prod.snd := by
    rw [mem_labels_iff run (.delete (dlqName name) id) not_false]
    intro hmem
    simpa [dlqName_ne name] using hnack.cases hmem
  have hdeleteAll : .deleteAll (dlqName name) ∉ trace.map Prod.snd := by
    rw [mem_labels_iff run (.deleteAll (dlqName name)) not_false]
    intro hmem
    simpa using hnack.cases hmem
  have honly : (trace.map Prod.snd).filter (fun label => label = .save (dlqName name) id) =
      [.save (dlqName name) id] := by
    rw [filter_own fun entry hentry hsave => ?_, hnack.saves]
    have hlabel : entry.2 = .save (dlqName name) id := of_decide_eq_true hsave
    exact mem_own_nack run (by rw [hlabel]; exact not_false) hentry
  rw [World.HasRecord, ← Disk.hasRecord, noted_run run nackRace_noted hsound]
  generalize trace.map Prod.snd = labels at *
  obtain ⟨before, after, rfl, hbefore, _, hafter⟩ := filter_eq_cons_iff.mp honly
  have hfirst : Label.save (dlqName name) id ∉ before := fun hmem => hbefore _ hmem (by simp)
  have hlast : Label.save (dlqName name) id ∉ after :=
    fun hmem => filter_eq_nil_iff.mp hafter _ hmem (by simp)
  rw [record_iff_of_saved hlast, follows_iff hfirst hlast]
  refine ⟨Spared.acked, fun hacked => ⟨fun hmem => hdelete ?_, hacked, fun hmem => hdeleteAll ?_⟩⟩
  · simp [hmem]
  · simp [hmem]

end Outcome

/-- A nack moves a message to the DLQ while consumers of the DLQ subscribe, receive and
ack it: once the nack has returned, no record of the message is left exactly if an ack
succeeded after the nack had saved the record in the DLQ. -/
theorem deadLettered_acked_iff
    (run : Interleaves (nackRace id name groupName requeue env calls) w trace rest w')
    (hreturned : rest[0]? = some (.done reply)) (hsound : w.disk.Sound)
    (hdead : .deadLettered name id ∈ trace.map Prod.snd) :
    ¬ w'.HasRecord name id ∧ ¬ w'.HasRecord (dlqName name) id ↔
      Follows (.acked (dlqName name) id true) (.save (dlqName name) id) (trace.map Prod.snd) := by
  have hnack := deadLettering_of_run run hreturned hsound hdead
  rw [hasRecord_dlq_iff run hsound hnack, not_not]
  exact and_iff_right (not_hasRecord_source run hsound hnack)

end Race

/-- A consumer of the DLQ subscribes, receives the rejected order and acks it. -/
def ackingConsumer : List ConsumerCall := [.consume 30 "" "c" 0 ⟨0, []⟩, .receive 0, .ack "" ⟨2, []⟩]

def promptRejection : NackEnv := ⟨1, ⟨1, []⟩, 1, ⟨⟨1, []⟩, fun _ => ⟨1, []⟩⟩⟩

/-- The ack comes after the nack. -/
theorem deadLettered_acked_after :
    ∃ trace w', Interleaves (nackRace "a" "orders" "" false promptRejection ackingConsumer) (rejecting [])
        trace [.done (.settled true none), .done (.subscribed (some 0)), .done .received,
          .done (.settled true none)] w' ∧
      ¬ w'.HasRecord "orders" "a" ∧ ¬ w'.HasRecord "orders.dlq" "a" := by
  have ⟨trace, w', run, hlabels⟩ : ∃ trace w',
      Interleaves (nackRace "a" "orders" "" false promptRejection ackingConsumer) (rejecting [])
        trace [.done (.settled true none), .done (.subscribed (some 0)), .done .received,
          .done (.settled true none)] w' ∧
      trace.map Prod.snd = [.silent, .silent, .silent, .deadLettered "orders" "a", .silent,
        .enqueue "orders.dlq" "a" true, .delete "orders" "a", .save "orders.dlq" "a", .silent,
        .silent, .silent, .acked "orders.dlq" "a" true] :=
    ⟨_, _, interleaves_scheduled [1, 1, 0, 0, 0, 0, 0, 0, 2, 2, 3, 3] _ _, rfl⟩
  refine ⟨trace, w', run, (deadLettered_acked_iff run rfl ⟨rfl, rfl⟩ ?_).mpr ?_⟩
  · rw [hlabels]
    decide
  · rw [hlabels]
    exact ⟨[.silent, .silent, .silent, .deadLettered "orders" "a", .silent,
      .enqueue "orders.dlq" "a" true, .delete "orders" "a"], _, rfl, by decide⟩

/-- The consumer acks the order before the nack saves its record in the DLQ: all calls
succeed, and the record of the acked order is there in the end. -/
theorem acked_order_stored_again :
    (rejecting []).disk.Sound ∧ ((rejecting []).queue? "orders.dlq").map Queue.full = some false ∧
    ∃ trace w', Interleaves (nackRace "a" "orders" "" false promptRejection ackingConsumer) (rejecting [])
        trace [.done (.settled true none), .done (.subscribed (some 0)), .done .received,
          .done (.settled true none)] w' ∧
      .deadLettered "orders" "a" ∈ trace.map Prod.snd ∧
      ¬(¬ w'.HasRecord "orders" "a" ∧ ¬ w'.HasRecord "orders.dlq" "a") := by
  have run := interleaves_scheduled [1, 1, 0, 0, 0, 0, 2, 2, 3, 3, 0, 0]
    (nackRace "a" "orders" "" false promptRejection ackingConsumer) (rejecting [])
  exact ⟨⟨rfl, rfl⟩, rfl, _, _, run, by decide, by decide⟩

end QwerQ
