import QwerQ.Badger.Streams
import QwerQ.Library.Run

/-! Committed offsets over whole runs of the store. A group's offset is a record under the
names of the queue and of the group, joined by a colon; what a read finds there is the last
commit under the same joined name. -/
namespace QwerQ.Badger
open List OrderedStore

structure Commit where
  queue : Bytes
  group : Bytes
  offset : UInt64

/-- What the key of a record holds after its kind. -/
def Commit.name (commit : Commit) : Bytes := commit.queue ++ colon :: commit.group

/-- The commits a call makes; one whose transaction fails makes none. -/
def Call.commits (faults : Nat → Option String) : Call → List Commit
  | .saveConsumerOffset queue group offset =>
      if faults 0 = none then [⟨queue, group, offset⟩] else []
  | _ => []

def CallStep (formats : Formats) (_ : List Commit) (db : Db) (events : List Commit) (after : Db) : Prop :=
  ∃ (call : Call) (faults : Nat → Option String),
    events = call.commits faults ∧ after = call.run formats faults db

def lastCommit (chosen : Commit → Bool) (history : List Commit) : Option UInt64 :=
  (history.reverse.find? chosen).map Commit.offset

section Calls
variable {formats : Formats} {db : Db}

theorem not_offset {kind queue key : Bytes} (hkind : ¬(kind <+: offsetPrefix ∨ offsetPrefix <+: kind))
    (h : keyspace kind queue <+: key) : ¬offsetPrefix <+: key := by
  intro hoffset
  rw [keyspace, append_assoc] at h
  exact hkind <| prefix_or_prefix_of_prefix ((prefix_append _ _).trans h) hoffset

theorem run_under_offsets (call : Call) (faults : Nat → Option String)
    (hcall : call.commits faults = []) :
    (call.run formats faults db).under offsetPrefix = db.under offsetPrefix := by
  cases call with
  | saveConsumerOffset queue group offset =>
    simp only [Call.run, saveConsumerOffset]
    cases hfault : faults 0 with
    | none => simp [Call.commits, hfault] at hcall
    | some text => rfl
  | saveQueue name config =>
    refine run_outside formats faults db _ fun key hkey hoffset => ?_
    have hboth := prefix_or_prefix_of_prefix ((prefix_append queuePrefix name).trans hkey) hoffset
    exact absurd hboth (by decide)
  | _ => exact run_outside formats faults db _ fun key hkey => not_offset (by decide) hkey

end Calls

def Recorded (formats : Formats) (history : List Commit) (db : Db) : Prop :=
  ∀ name, db.get (offsetPrefix ++ name) =
    (lastCommit (·.name = name) history).map formats.printOffset

theorem offsetKey_eq (commit : Commit) :
    offsetKey commit.queue commit.group = offsetPrefix ++ commit.name := by
  simp [offsetKey, keyspace, Commit.name]

theorem Recorded.step {formats : Formats} {history events : List Commit} {db after : Db}
    (h : Recorded formats history db) (taken : CallStep formats history db events after) :
    Recorded formats (history ++ events) after := by
  obtain ⟨call, faults, rfl, rfl⟩ := taken
  intro name
  by_cases hnone : call.commits faults = []
  · have hpart : offsetPrefix <+: offsetPrefix ++ name := prefix_append _ _
    rw [hnone, append_nil, ← h name, get_eq _ hpart, get_eq _ hpart, run_under_offsets call faults hnone]
  · cases call with
    | saveConsumerOffset queue group offset =>
      have hfault : faults 0 = none := by
        by_contra hsome
        exact hnone (if_neg hsome)
      simp only [Call.run, saveConsumerOffset, update, hfault, Call.commits, if_true]
      rw [offsetKey_eq ⟨queue, group, offset⟩, get_set, lastCommit, reverse_concat, find?_cons]
      by_cases hname : Commit.name ⟨queue, group, offset⟩ = name
      · simp [hname]
      · have hkey : offsetPrefix ++ name ≠ offsetPrefix ++ Commit.name ⟨queue, group, offset⟩ :=
          fun heq => hname (append_cancel_left heq).symm
        rw [if_neg hkey, h name, decide_eq_false hname]
        rfl
    | _ => exact absurd rfl hnone

theorem name_eq_iff {commit : Commit} {queue group : Bytes} (hcommit : colon ∉ commit.queue)
    (hqueue : colon ∉ queue) :
    commit.name = queue ++ colon :: group ↔ commit.queue = queue ∧ commit.group = group := by
  have hcut (name rest : Bytes) (h : colon ∉ name) :
      (name ++ colon :: rest).takeWhile (· ≠ colon) = name := by
    rw [takeWhile_append_of_pos fun byte hbyte => decide_eq_true (ne_of_mem_of_not_mem hbyte h)]
    simp
  constructor
  · intro h
    have hname : commit.queue = queue := by
      rw [← hcut commit.queue commit.group hcommit, ← hcut queue group hqueue]
      exact congrArg _ h
    rw [Commit.name, hname] at h
    exact ⟨hname, cons_injective (append_cancel_left h)⟩
  · rintro ⟨rfl, rfl⟩
    rfl

/-- Over any run of the store, with any transactions failing, a group's offset is the last
one committed under the joined name, and zero where there is none: nothing else that is
saved or deleted touches it. Where no queue's name holds a colon, it is the group's own. -/
theorem loadConsumerOffset_last (formats : Formats)
    (hformats : ∀ offset, formats.scanNumber (formats.printOffset offset) = .ok offset)
    {history : List Commit} {db : Db} (run : Run (CallStep formats) .empty history db)
    (queue group : Bytes) :
    loadConsumerOffset formats queue group db =
      .ok ((lastCommit (·.name = queue ++ colon :: group) history).getD 0) ∧
    (colon ∉ queue → (∀ commit ∈ history, colon ∉ commit.queue) →
      loadConsumerOffset formats queue group db =
        .ok ((lastCommit (fun commit => commit.queue = queue ∧ commit.group = group) history).getD 0)) := by
  have hrecorded : Recorded formats history db := run.invariant (Recorded formats) (fun _ => rfl) Recorded.step
  have hload : loadConsumerOffset formats queue group db =
      .ok ((lastCommit (·.name = queue ++ colon :: group) history).getD 0) := by
    have hget := hrecorded (queue ++ colon :: group)
    rw [loadConsumerOffset, offsetKey_eq ⟨queue, group, 0⟩, Commit.name, hget]
    cases lastCommit (·.name = queue ++ colon :: group) history with
    | none => rfl
    | some offset => exact hformats offset
  refine ⟨hload, fun hqueue hplain => ?_⟩
  rw [hload, lastCommit, lastCommit, ← head?_filter, ← head?_filter, filter_congr fun commit hmem =>
    decide_eq_decide.mpr (name_eq_iff (hplain commit (mem_reverse.mp hmem)) hqueue)]

/-- Queue `a:b` with group `c` and queue `a` with group `b:c` share a record. -/
theorem loadConsumerOffset_shared :
    loadConsumerOffset wholeFormats [97] [98, colon, 99]
      (saveConsumerOffset wholeFormats [97, colon, 98] [99] 7 none .empty).2 = .ok 7 :=
  (loadConsumerOffset_last wholeFormats readDigits_printed
    (.next .start ⟨.saveConsumerOffset _ _ _, fun _ => none, rfl, rfl⟩) _ _).1

end QwerQ.Badger
