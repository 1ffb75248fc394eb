import QwerQ.Stream.Retention
import QwerQ.Library.Run
import Mathlib.Data.List.Chain

/-! The numbers that a stream gives to its messages, over publishes, retention and
restarts. A new process goes on after the highest number that is still stored. -/
namespace QwerQ
open List Storage StreamQueue

/-- A stream with its storage and the retention calls that are under way. -/
structure StreamLog where
  queue : StreamQueue
  disk : Disk
  calls : List (StreamProg StreamQueue.Retention)

namespace StreamLog
variable {s s' : StreamLog} {name : String}

def lastStored (name : String) (disk : Disk) : Except Err UInt64 × Disk :=
  if disk.present then disk.read (Storage.getStreamSequence name) else (.ok 0, disk)

def opened (name : String) (disk : Disk) : StreamLog :=
  ⟨StreamQueue.new name (lastStored name disk).1, (lastStored name disk).2, []⟩

/-- `work` is the next step of one of the retention calls. -/
inductive Action where
  | publish (msg : Message)
  | setRetention (maxAge : Duration) (maxBytes : Int)
  | runRetention (now : Time) (rounds : Nat)
  | work (call : Nat)
  | restart

inductive Event where
  | returned (seq : UInt64)
  | restarted
  deriving DecidableEq

def act : Action → StreamLog → StreamLog × List Event
  | .publish msg, s =>
      match s.queue.publish msg s.disk with
      | ((queue, disk), .ok seq) => ({ s with queue := queue, disk := disk }, [.returned seq])
      | ((queue, disk), .error _) => ({ s with queue := queue, disk := disk }, [])
  | .setRetention maxAge maxBytes, s =>
      ({ s with queue := s.queue.setRetention maxAge maxBytes }, [])
  | .runRetention now rounds, s =>
      ({ s with calls := s.calls ++ [StreamQueue.runRetention now rounds] }, [])
  | .work call, s =>
      match s.calls[call]? with
      | some (.step _ act next) =>
          (⟨(act (s.queue, s.disk)).1, (act (s.queue, s.disk)).2,
            s.calls.set call (next (s.queue, s.disk))⟩, [])
      | _ => (s, [])
  | .restart, s => (opened s.queue.name s.disk, [.restarted])

inductive Step (guard : List Event → StreamLog → Action → Prop) :
    List Event → StreamLog → List Event → StreamLog → Prop where
  | act {history : List Event} {s : StreamLog} (action : Action) :
      guard history s action → Step guard history s (s.act action).2 (s.act action).1

abbrev Runs (guard : List Event → StreamLog → Action → Prop) := Run (Step guard)

def anyAction (_ : List Event) (_ : StreamLog) (_ : Action) : Prop := True

def numbers (history : List Event) : List UInt64 :=
  history.filterMap fun
    | .returned seq => some seq
    | .restarted => none

theorem numbers_returned (history : List Event) (seq : UInt64) :
    numbers (history ++ [.returned seq]) = numbers history ++ [seq] := filterMap_append

theorem numbers_restarted (history : List Event) :
    numbers (history ++ [.restarted]) = numbers history := by simp [numbers]

/-- The storage still has the last number returned, or a higher one, and says so. -/
def Remembers (history : List Event) (s : StreamLog) : Prop :=
  ∀ n ∈ numbers history, ∃ seq, (lastStored s.queue.name s.disk).1 = .ok seq ∧ n ≤ seq

/-- The counter has not wrapped at a publish, and no restart forgets a number. -/
def careful (history : List Event) (s : StreamLog) : Action → Prop
  | .publish _ => s.queue.nextSeq ≠ 0
  | .restart => s.Remembers history
  | _ => True

def Framed (s : StreamLog) : Prop := ∀ call ∈ s.calls, call.Every StreamQueue.SameStream

inductive Effect (s : StreamLog) : Action → List Event → StreamLog → Prop where
  | kept {action : Action} {s' : StreamLog} (hrestart : action ≠ .restart)
      (hqueue : s'.queue.nextSeq = s.queue.nextSeq) : Effect s action [] s'
  | published {msg : Message} {s' : StreamLog} (hqueue : s'.queue.nextSeq = s.queue.nextSeq + 1) :
      Effect s (.publish msg) [.returned s.queue.nextSeq] s'
  | restarted : Effect s .restart [.restarted] (opened s.queue.name s.disk)

theorem act_effect (h : s.Framed) (action : Action) :
    Effect s action (s.act action).2 (s.act action).1 ∧ (s.act action).1.Framed := by
  cases action with
  | publish msg =>
    by_cases hfails : s.disk.fails 0
    · have ⟨err, hpublish⟩ := s.queue.publish_of_fails msg hfails
      simp only [act, hpublish]
      exact ⟨.kept nofun rfl, h⟩
    · simp only [act, s.queue.publish_of_not_fails msg hfails]
      exact ⟨.published rfl, h⟩
  | setRetention maxAge maxBytes => exact ⟨.kept nofun rfl, h⟩
  | runRetention now rounds =>
    refine ⟨.kept nofun rfl, fun call hcall => ?_⟩
    rcases mem_append.mp hcall with hold | hnew
    · exact h call hold
    · rw [mem_singleton.mp hnew]
      exact runRetention_sameStream now rounds
  | work call =>
    simp only [act]
    split
    · rename_i label act next hget
      have hevery := h _ (mem_of_getElem? hget) (s.queue, s.disk)
      refine ⟨.kept nofun (congrArg StreamQueue.nextSeq hevery.1.1), fun other hother => ?_⟩
      rcases mem_or_eq_of_mem_set hother with hold | rfl
      · exact h other hold
      · exact hevery.2
    · exact ⟨.kept nofun rfl, h⟩
  | restart => exact ⟨.restarted, fun _ hcall => absurd hcall not_mem_nil⟩

theorem framed_opened (name : String) (disk : Disk) : (opened name disk).Framed :=
  fun _ hcall => absurd hcall not_mem_nil

/-- A number is one more than the one returned before it, unless the process is new. -/
def Event.Follows : Event → Event → Prop
  | .returned n, .returned m => m = n + 1
  | _, _ => True

def Consecutive (history : List Event) : Prop := history.IsChain Event.Follows

section Run
variable {guard : List Event → StreamLog → Action → Prop} {history events : List Event}
  {disk : Disk}

/-- The numbers so far are consecutive, and the counter goes on from the last. -/
structure Chained (history : List Event) (s : StreamLog) : Prop where
  consecutive : Consecutive history
  last : ∀ n, history.getLast? = some (.returned n) → s.queue.nextSeq = n + 1

theorem Chained.step {action : Action} (h : s.Chained history)
    (heffect : Effect s action events s') : s'.Chained (history ++ events) := by
  cases heffect with
  | kept _ hqueue =>
    rw [append_nil]
    exact ⟨h.consecutive, fun n hn => hqueue.trans (h.last n hn)⟩
  | published hqueue =>
    refine ⟨h.consecutive.append (.singleton _) fun last hlast first hfirst => ?_, fun n hn => ?_⟩
    · cases hfirst
      cases last with
      | restarted => trivial
      | returned n => exact h.last n hlast
    · rw [getLast?_append] at hn
      cases hn
      exact hqueue
  | restarted =>
    refine ⟨h.consecutive.append (.singleton _) fun last _ first hfirst => ?_, fun n hn => ?_⟩
    · cases hfirst
      cases last <;> trivial
    · rw [getLast?_append] at hn
      cases hn

theorem Runs.chained (run : Runs guard (opened name disk) history s) : s.Chained history := by
  have hinv := run.invariant (fun history s => s.Framed ∧ s.Chained history)
    ⟨framed_opened name disk, .nil, nofun⟩ fun ⟨hframed, h⟩ step => by
      cases step with
      | act action _ =>
        have ⟨heffect, hframed'⟩ := act_effect hframed action
        exact ⟨hframed', h.step heffect⟩
  exact hinv.2

/-- The next number is higher than all before it, unless the counter has wrapped. -/
def Ahead (history : List Event) (s : StreamLog) : Prop :=
  s.queue.nextSeq ≠ 0 → ∀ n ∈ numbers history, n < s.queue.nextSeq

structure Counted (history : List Event) (s : StreamLog) : Prop where
  increasing : (numbers history).Pairwise (· < ·)
  positive : ∀ n ∈ numbers history, 0 < n
  ahead : s.Ahead history

theorem opened_nextSeq {seq : UInt64} (h : (lastStored name disk).1 = .ok seq) :
    (opened name disk).queue.nextSeq = seq + 1 := by
  simp only [opened, StreamQueue.new, h]
  split
  · rfl
  · rename_i hzero
    rw [show seq = 0 by grind]
    rfl

theorem opened_nextSeq_failed {err : Err} (h : (lastStored name disk).1 = .error err) :
    (opened name disk).queue.nextSeq = 1 := by
  simp only [opened, StreamQueue.new, h]

theorem ahead_restart_iff (hpositive : ∀ n ∈ numbers history, 0 < n) :
    (opened s.queue.name s.disk).Ahead history ↔ s.Remembers history := by
  cases hlast : (lastStored s.queue.name s.disk).1 with
  | error err =>
    simp only [Ahead, Remembers, opened_nextSeq_failed hlast, hlast]
    constructor
    · intro h n hn
      have hlt := h (by decide) n hn
      have hpos := hpositive n hn
      grind
    · intro h _ n hn
      have ⟨_, herr, _⟩ := h n hn
      cases herr
  | ok last =>
    simp only [Ahead, Remembers, opened_nextSeq hlast, hlast]
    constructor
    · intro h n hn
      refine ⟨last, rfl, ?_⟩
      by_cases hwrap : last + 1 = 0
      · grind
      · have hlt := h hwrap n hn
        grind
    · intro h hwrap n hn
      have ⟨seq, hseq, hle⟩ := h n hn
      cases hseq
      grind

theorem Counted.step {action : Action} (h : s.Counted history) (hguard : careful history s action)
    (heffect : Effect s action events s') : s'.Counted (history ++ events) := by
  cases heffect with
  | kept _ hqueue =>
    rw [append_nil]
    refine ⟨h.increasing, h.positive, ?_⟩
    rw [Ahead, hqueue]
    exact h.ahead
  | published hqueue =>
    have hnext : s.queue.nextSeq ≠ 0 := hguard
    refine ⟨?_, fun n hn => ?_, fun hwrap n hn => ?_⟩
    · rw [numbers_returned, pairwise_append]
      refine ⟨h.increasing, pairwise_singleton _ _, fun n hn m hm => ?_⟩
      rw [mem_singleton.mp hm]
      exact h.ahead hnext n hn
    · rw [numbers_returned, mem_append, mem_singleton] at hn
      rcases hn with hold | rfl
      · exact h.positive n hold
      · grind
    · rw [numbers_returned, mem_append, mem_singleton] at hn
      rw [hqueue] at hwrap ⊢
      rcases hn with hold | rfl
      · have hlt := h.ahead hnext n hold
        grind
      · grind
  | restarted =>
    have hnumbers := numbers_restarted history
    refine ⟨hnumbers ▸ h.increasing, hnumbers ▸ h.positive, ?_⟩
    rw [Ahead, hnumbers]
    exact (ahead_restart_iff h.positive).mpr hguard

theorem Runs.counted (run : Runs careful (opened name disk) history s) : s.Counted history := by
  have hinv := run.invariant (fun history s => s.Framed ∧ s.Counted history)
    ⟨framed_opened name disk, .nil, nofun, fun _ => nofun⟩ fun ⟨hframed, h⟩ step => by
      cases step with
      | act action hguard =>
        have ⟨heffect, hframed'⟩ := act_effect hframed action
        exact ⟨hframed', h.step hguard heffect⟩
  exact hinv.2

/-- In a run whose restarts remember the numbers, these increase, by one within a
process; and a restart that does not remember them makes the next number too low. -/
theorem Runs.numbers_increase (run : Runs careful (opened name disk) history s) :
    (numbers history).Pairwise (· < ·) ∧ Consecutive history ∧
      ((s.act .restart).1.Ahead history ↔ s.Remembers history) :=
  ⟨run.counted.increasing, run.chained.consecutive, ahead_restart_iff run.counted.positive⟩

/-- The size is not limited, and restarts can read the storage. -/
def byAge (_ : List Event) (s : StreamLog) : Action → Prop
  | .publish _ => s.queue.nextSeq ≠ 0
  | .setRetention _ maxBytes => maxBytes ≤ 0
  | .restart => ∃ seq, (lastStored s.queue.name s.disk).1 = .ok seq
  | _ => True

/-- The highest number is stored, and no call is going to delete it. -/
structure Aging (name : String) (history : List Event) (s : StreamLog) : Prop where
  named : s.queue.name = name
  present : s.disk.present = true
  unlimited : s.queue.retentionMaxBytes ≤ 0
  calls : ∀ call ∈ s.calls,
    call.Keeps (StreamQueue.Rises name) (fun _ _ => True) (s.queue, s.disk)
  stored : ∀ n ∈ numbers history, n ≤ s.disk.storage.getStreamSequence name

theorem aging_opened (name : String) (hpresent : disk.present = true) :
    (opened name disk).Aging name [] := by
  refine ⟨rfl, ?_, Int.le_refl 0, fun _ hcall => absurd hcall not_mem_nil, nofun⟩
  rw [opened, lastStored, if_pos hpresent, Disk.read_disk]
  exact hpresent

/-- One call after another moves the stream up; those under way do not mind. -/
theorem Aging.rises {queue : StreamQueue} (h : s.Aging name history)
    (hrises : StreamQueue.Rises name (s.queue, s.disk) (queue, disk)) :
    Aging name history ⟨queue, disk, s.calls⟩ where
  named := hrises.named h.named
  present := hrises.present h.present
  unlimited := hrises.unlimited h.unlimited
  calls call hcall := (h.calls call hcall).rise StreamQueue.Rises.trans hrises
  stored n hn := UInt64.le_trans (h.stored n hn) hrises.highest

theorem Aging.publish (msg : Message) (h : s.Aging name history) :
    (s.act (.publish msg)).1.Aging name (history ++ (s.act (.publish msg)).2) := by
  by_cases hfails : s.disk.fails 0
  · have ⟨err, hpublish⟩ := s.queue.publish_of_fails msg hfails
    simp only [act, hpublish, append_nil]
    exact h.rises ⟨id, id, id, UInt64.le_refl _⟩
  · let saved := s.disk.storage.saveStreamMessage name s.queue.nextSeq
      { msg with sequence := s.queue.nextSeq }
    have ⟨hold, hnew⟩ : s.disk.storage.getStreamSequence name ≤ saved.getStreamSequence name ∧
        s.queue.nextSeq ≤ saved.getStreamSequence name :=
      getStreamSequence_saveStreamMessage _ _
    have hrises : StreamQueue.Rises name (s.queue, s.disk) (s.queue.appended msg, s.disk.called saved) :=
      ⟨id, id, id, hold⟩
    have hmoved := h.rises hrises
    simp only [act, s.queue.publish_of_not_fails msg hfails, Disk.wrote, h.present, if_true, h.named]
    refine ⟨hmoved.named, hmoved.present, hmoved.unlimited, hmoved.calls, fun n hn => ?_⟩
    rw [numbers_returned, mem_append] at hn
    rcases hn with hold' | hnext
    · exact hmoved.stored n hold'
    · rw [mem_singleton.mp hnext]
      exact hnew

theorem Aging.step {action : Action} (h : s.Aging name history) (hguard : byAge history s action) :
    (s.act action).1.Aging name (history ++ (s.act action).2) := by
  cases action with
  | publish msg => exact h.publish msg
  | setRetention maxAge maxBytes =>
    rw [act, append_nil]
    exact h.rises ⟨id, id, fun _ => hguard, UInt64.le_refl _⟩
  | runRetention now rounds =>
    rw [act, append_nil]
    refine ⟨h.named, h.present, h.unlimited, fun call hcall => ?_, h.stored⟩
    rcases mem_append.mp hcall with hold | hnew
    · exact h.calls call hold
    · rw [mem_singleton.mp hnew]
      exact runRetention_rises now rounds h.named h.unlimited
  | work call =>
    simp only [act]
    split
    · rename_i label act next hget
      have ⟨hrises, hrest⟩ := h.calls _ (mem_of_getElem? hget) _
        (StreamQueue.Rises.refl name (s.queue, s.disk))
      have hmoved := h.rises hrises
      rw [append_nil]
      refine ⟨hmoved.named, hmoved.present, hmoved.unlimited, fun other hother => ?_, hmoved.stored⟩
      rcases mem_or_eq_of_mem_set hother with hold | rfl
      · exact hmoved.calls other hold
      · exact hrest
    · rw [append_nil]
      exact h
  | restart =>
    have hstorage : (opened s.queue.name s.disk).disk.storage = s.disk.storage := by
      rw [opened, lastStored, if_pos h.present, Disk.read_disk]
      rfl
    have hopened := aging_opened s.queue.name h.present
    rw [h.named] at hopened hstorage
    rw [act, h.named]
    refine ⟨hopened.named, hopened.present, hopened.unlimited, hopened.calls, fun n hn => ?_⟩
    rw [hstorage]
    exact h.stored n (numbers_restarted history ▸ hn)

theorem Aging.remembers (h : s.Aging name history) (hguard : byAge history s .restart) :
    s.Remembers history := by
  intro n hn
  have ⟨seq, hseq⟩ := hguard
  refine ⟨seq, hseq, ?_⟩
  rw [lastStored, if_pos h.present, h.named] at hseq
  rw [Disk.read_ok hseq]
  exact h.stored n hn

/-- Retention by age never makes a restart forget: whatever the times, the newest message
stays. -/
theorem Runs.careful_of_byAge (hpresent : disk.present = true)
    (run : Runs byAge (opened name disk) history s) :
    Runs careful (opened name disk) history s ∧ s.Aging name history := by
  induction run with
  | start => exact ⟨.start, aging_opened name hpresent⟩
  | next _ step ih =>
    have ⟨run, haging⟩ := ih
    cases step with
    | act action hguard =>
      refine ⟨run.next (.act action ?_), haging.step hguard⟩
      cases action with
      | publish msg => exact hguard
      | restart => exact haging.remembers hguard
      | setRetention | runRetention | work => trivial

theorem Runs.increasing_by_age (hpresent : disk.present = true)
    (run : Runs byAge (opened name disk) history s) : (numbers history).Pairwise (· < ·) :=
  (run.careful_of_byAge hpresent).1.counted.increasing

theorem Runs.works {start : StreamLog} {program : StreamProg StreamQueue.Retention}
    {result : StreamQueue.Retention} {queue : StreamQueue} (call : Nat)
    (run : Runs anyAction start history s) (hget : s.calls[call]? = some program)
    (hrun : program.run (s.queue, s.disk) = (.ok result, (queue, disk))) :
    Runs anyAction start history ⟨queue, disk, s.calls.set call (.done result)⟩ := by
  induction program generalizing s with
  | done other =>
    obtain ⟨hresult, hstate⟩ := Prod.mk.inj hrun
    cases hresult
    cases hstate
    have ⟨hcall, hprogram⟩ := List.getElem?_eq_some_iff.mp hget
    rwa [← hprogram, set_getElem_self]
  | crash failure => exact nomatch failure
  | step label act next ih =>
    have hact : s.act (.work call) = (⟨(act (s.queue, s.disk)).1, (act (s.queue, s.disk)).2,
        s.calls.set call (next (s.queue, s.disk))⟩, []) := by
      simp only [StreamLog.act, hget]
    have hstep := run.next (.act (.work call) trivial)
    rw [hact, append_nil] at hstep
    have hlength := (List.getElem?_eq_some_iff.mp hget).1
    have hdone := ih (s.queue, s.disk) hstep (getElem?_set_self hlength) hrun
    rwa [set_set] at hdone

/-- Whatever a stream of a hundred numbers has stored, if its newest message is larger
than the limit for the size, retention deletes it all and a restart begins again. -/
theorem Runs.begins_again {start : StreamLog} {record : StreamRecord} {maxBytes : Int}
    (run : Runs anyAction start history s) (hsound : s.disk.Sound) (hidle : s.calls = [])
    (hbytes : 0 < maxBytes) (hmem : record ∈ s.disk.storage.streamRecords s.queue.name)
    (hnewest : record.seq = s.disk.storage.getStreamSequence s.queue.name)
    (hwraps : UInt64.ofNat StreamQueue.retentionBatch ≤ record.seq + 1)
    (hlarge : maxBytes < record.msg.payload.length) (hlength : record.msg.payload.length < 2 ^ 63)
    (hpositive : ∀ other ∈ s.disk.storage.streamRecords s.queue.name, other.seq ≠ 0) :
    ∃ s', Runs anyAction start (history ++ [.restarted]) s' ∧ s'.queue.nextSeq = 1 ∧ s'.disk.Sound := by
  let limited : StreamQueue := s.queue.setRetention 0 maxBytes
  let emptied : Disk := { s.disk with
    storage := s.disk.storage.deleteStreamMessagesBefore s.queue.name (record.seq + 1) }
  have hfirst : s.disk.storage.getOldestStreamSequence s.queue.name ≠ 0 := by
    have ⟨oldest, holdest, heq⟩ :=
      getOldestStreamSequence_stored (ne_nil_of_mem hmem)
    rw [← heq]
    exact hpositive oldest holdest
  have hcall : (StreamQueue.runRetention 0 1).run (limited, s.disk) =
      (.ok (.returned none), (limited, emptied)) := by
    rw [runRetention_bySize 0 1 hsound.present rfl hbytes]
    exact expireBySize_empties 0 hsound hmem hnewest hwraps hlarge hlength hfirst
  have hcalled : Runs anyAction start history ⟨limited, s.disk, [StreamQueue.runRetention 0 1]⟩ := by
    have hset := run.next (.act (.setRetention 0 maxBytes) trivial)
    have hrun := hset.next (.act (.runRetention 0 1) trivial)
    simp only [act, hidle, append_nil, nil_append] at hrun
    exact hrun
  have hworked : Runs anyAction start history ⟨limited, emptied, [.done (.returned none)]⟩ :=
    hcalled.works 0 rfl hcall
  have hsound' : emptied.Sound := ⟨hsound.present, hsound.faults⟩
  have hnone : emptied.storage.getStreamSequence s.queue.name ≤ 0 := by
    refine getStreamSequence_le fun other hother => ?_
    have ⟨hstored, hkept⟩ := mem_deleteStreamMessagesBefore.mp hother
    have hle := hnewest ▸ le_getStreamSequence hstored
    have hbatch : UInt64.ofNat StreamQueue.retentionBatch = 100 := rfl
    grind
  have hlast : lastStored s.queue.name emptied = (.ok 0, emptied) := by
    rw [lastStored, if_pos hsound'.present, hsound'.read_eq, UInt64.le_zero_iff.mp hnone]
  refine ⟨_, hworked.next (.act .restart trivial), ?_, ?_⟩
  · exact opened_nextSeq (congrArg Prod.fst hlast)
  · have hdisk : (opened s.queue.name emptied).disk = emptied := congrArg Prod.snd hlast
    exact hdisk.symm ▸ hsound'

end Run

structure Grown (n : Nat) (s : StreamLog) : Prop where
  named : s.queue.name = "events"
  sound : s.disk.Sound
  idle : s.calls = []
  next : s.queue.nextSeq = UInt64.ofNat (n + 1)
  numbered : ∀ record ∈ s.disk.storage.streamRecords "events", 0 < record.seq ∧ record.seq ≤ UInt64.ofNat n
  newest : n ≠ 0 → ∃ record ∈ s.disk.storage.streamRecords "events",
    record.seq = UInt64.ofNat n ∧ record.msg.payload = [0, 0]

private def twoBytes : Message := ⟨"a", "events", [0, 0], ∅, 0, 0, 0, "", 0⟩

private def blank : Disk := ⟨true, Storage.empty, fun _ => none⟩

private theorem act_twoBytes {n : Nat} (h : s.Grown n) : s.act (.publish twoBytes) =
    (⟨s.queue.appended twoBytes, s.disk.called (s.disk.storage.saveStreamMessage "events" s.queue.nextSeq
      { twoBytes with sequence := s.queue.nextSeq }), s.calls⟩, [.returned s.queue.nextSeq]) := by
  have hsaves : ¬ s.disk.fails 0 := fun hfails => hfails.2 (by rw [h.sound.faults])
  simp only [act, s.queue.publish_of_not_fails _ hsaves, Disk.wrote, h.sound.present, if_true, h.named]

private theorem grown (n : Nat) (hn : n < 100) : ∃ s, Runs anyAction (opened "events" blank)
    ((List.range n).map fun i => .returned (UInt64.ofNat (i + 1))) s ∧ s.Grown n := by
  induction n with
  | zero =>
    refine ⟨_, .start, rfl, ⟨rfl, rfl⟩, rfl, rfl, ?_, fun h => absurd rfl h⟩
    intro record hmem
    exact absurd hmem not_mem_nil
  | succ n ih =>
    have ⟨s, run, h⟩ := ih (Nat.lt_of_succ_lt hn)
    have hrun := run.next (.act (.publish twoBytes) trivial)
    refine ⟨(s.act (.publish twoBytes)).1, ?_, ?_⟩
    · rw [range_succ, map_append, map_singleton, ← h.next]
      rwa [congrArg Prod.snd (act_twoBytes h)] at hrun
    rw [act_twoBytes h]
    refine ⟨h.named, ⟨h.sound.present, ?_⟩, h.idle, ?_, fun record hmem => ?_, fun _ => ?_⟩
    · funext call
      exact congrFun h.sound.faults (call + 1)
    · change s.queue.nextSeq + 1 = _
      rw [h.next]
      exact (UInt64.ofNat_add (n + 1) 1).symm
    · have hnext : UInt64.ofNat n + 1 = UInt64.ofNat (n + 1) := (UInt64.ofNat_add n 1).symm
      have hsmall : UInt64.ofNat n < 100 := by
        have hsize : n < UInt64.size := Nat.lt_trans (Nat.lt_of_succ_lt hn) (by decide)
        rw [UInt64.lt_iff_toNat_lt, UInt64.toNat_ofNat_of_lt' hsize]
        exact Nat.lt_of_succ_lt hn
      rcases mem_saveStreamMessage.mp hmem with rfl | ⟨hold, _⟩
      · rw [h.next]
        grind
      · have hbounds := h.numbered record hold
        grind
    · exact ⟨_, mem_saveStreamMessage.mpr (.inl rfl), h.next, rfl⟩

/-- A size limit below the newest message empties the stream, and after a restart the
numbers begin again. -/
theorem numbers_reused : ∃ history s, Runs anyAction (opened "events" blank) history s ∧
    ¬ (numbers history).Pairwise (· < ·) := by
  have ⟨s, run, h⟩ := grown 99 (by decide)
  have ⟨record, hmem, hseq, hpayload⟩ := h.newest (by decide)
  have hnewest : record.seq = s.disk.storage.getStreamSequence s.queue.name := by
    rw [h.named]
    refine UInt64.le_antisymm (Storage.le_getStreamSequence hmem) (Storage.getStreamSequence_le ?_)
    intro other hother
    rw [hseq]
    exact (h.numbered other hother).2
  have hpositive (other : StreamRecord) (hother : other ∈ s.disk.storage.streamRecords s.queue.name) :
      other.seq ≠ 0 := by
    have hlt := (h.numbered other (h.named ▸ hother)).1
    grind
  have hlarge : (1 : Int) < record.msg.payload.length := by
    rw [hpayload]
    decide
  have ⟨s', run', hnext, hsound⟩ := run.begins_again h.sound h.idle (by decide) (h.named ▸ hmem) hnewest
    (by rw [hseq]; decide) hlarge (by rw [hpayload]; decide) hpositive
  have hsaves : ¬ s'.disk.fails 0 := fun hfails => hfails.2 (by rw [hsound.faults])
  have hact : (s'.act (.publish twoBytes)).2 = [.returned 1] := by
    simp only [act, s'.queue.publish_of_not_fails _ hsaves, hnext]
  refine ⟨_, _, run'.next (.act (.publish twoBytes) trivial), fun hincreasing => ?_⟩
  rw [hact, numbers, List.filterMap_append, List.pairwise_append] at hincreasing
  have hfirst : Event.returned 1 ∈
      (List.range 99).map (fun i => Event.returned (UInt64.ofNat (i + 1))) ++ [.restarted] :=
    List.mem_append_left _ (List.mem_map.mpr ⟨0, List.mem_range.mpr (by decide), rfl⟩)
  have hlt : (1 : UInt64) < 1 := hincreasing.2.2 1 (List.mem_filterMap.mpr ⟨_, hfirst, rfl⟩) 1
    (List.mem_singleton.mpr rfl)
  exact absurd hlt (by decide)

/-- A restart right after a publish remembers its number. -/
theorem numbers_increase_restart : ∃ history s, Runs careful (opened "events" blank) history s ∧
    numbers history = [1, 2] ∧ (numbers history).Pairwise (· < ·) := by
  have first : Runs careful (opened "events" blank) _ _ :=
    Run.start.next (Step.act (.publish twoBytes) (show (1 : UInt64) ≠ 0 by decide))
  have hremembers : careful [.returned 1] (act (.publish twoBytes) (opened "events" blank)).1 .restart := by
    intro n hn
    rw [List.mem_singleton.mp hn]
    exact ⟨1, rfl, UInt64.le_refl 1⟩
  have run := (first.next (Step.act .restart hremembers)).next
    (Step.act (.publish twoBytes) (show (2 : UInt64) ≠ 0 by decide))
  exact ⟨_, _, run, rfl, (Runs.numbers_increase run).1⟩

/-- A retention call with an age deletes the older of two messages, step by step, and the
numbers go on after a restart. -/
theorem increasing_by_age_restart : ∃ history s, Runs byAge (opened "events" blank) history s ∧
    (s.disk.storage.streamRecords "events").map StreamRecord.seq = [2, 3] ∧
    numbers history = [1, 2, 3] ∧ (numbers history).Pairwise (· < ·) := by
  have published : Runs byAge (opened "events" blank) _ _ :=
    (Run.start.next (Step.act (.publish twoBytes) (show (1 : UInt64) ≠ 0 by decide))).next
      (Step.act (.publish { twoBytes with publishedAt := 5 * nanosecondsPerSecond })
        (show (2 : UInt64) ≠ 0 by decide))
  have called := (published.next (Step.act (.setRetention nanosecondsPerSecond 0) (Int.le_refl 0))).next
    (Step.act (.runRetention (5 * nanosecondsPerSecond) 1) trivial)
  have expired := ((called.next (Step.act (.work 0) trivial)).next (Step.act (.work 0) trivial)).next
    (Step.act (.work 0) trivial)
  have run := (expired.next (Step.act .restart ⟨2, rfl⟩)).next
    (Step.act (.publish twoBytes) (show (3 : UInt64) ≠ 0 by decide))
  exact ⟨_, _, run, rfl, rfl, Runs.increasing_by_age rfl run⟩

end StreamLog

end QwerQ
