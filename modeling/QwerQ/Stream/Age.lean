import QwerQ.Stream.Retention

/-! Retention by age. The first message that is not expired is looked up, and what is
before it is deleted. Zero stands for no such message, and nothing is deleted then: a
stream whose messages have all expired keeps them. -/
namespace QwerQ
open Process

theorem unixMilli_mono {left right : Time} (h : left ≤ right) : unixMilli left ≤ unixMilli right :=
  Int.ediv_le_ediv (by decide) (Int.sub_le_sub_right h unixEpoch)

namespace StreamQueue
variable {name : String} {sq : StreamQueue} {disk : Disk} {now : Time}

def Fresh (cutoffMs : Int) (record : StreamRecord) : Prop :=
  cutoffMs ≤ unixMilli record.msg.publishedAt

def InTime (name : String) (s : Storage) : Prop :=
  ∀ left ∈ s.streamRecords name, ∀ right ∈ s.streamRecords name,
    left.seq ≤ right.seq → left.msg.publishedAt ≤ right.msg.publishedAt

def OnlyFresh (name : String) (cutoffMs : Int) (s s' : Storage) : Prop :=
  ∀ record, record ∈ s'.streamRecords name ↔ record ∈ s.streamRecords name ∧ Fresh cutoffMs record

/-- There is nothing to expire, or something that stays. -/
def SomeFresh (name : String) (cutoffMs : Int) (s : Storage) : Prop :=
  s.streamRecords name = [] ∨ ∃ record ∈ s.streamRecords name, Fresh cutoffMs record

theorem onlyFresh_of_first {s s' : Storage} {cutoffMs : Int} {first : StreamRecord}
    (hinTime : InTime name s) (hfirst : first ∈ s.streamRecords name) (hfresh : Fresh cutoffMs first)
    (hbefore : ∀ record ∈ s.streamRecords name, record.seq < first.seq →
      unixMilli record.msg.publishedAt < cutoffMs)
    (hleft : ∀ record, record ∈ s'.streamRecords name ↔
      record ∈ s.streamRecords name ∧ first.seq ≤ record.seq) : OnlyFresh name cutoffMs s s' := by
  intro record
  rw [hleft]
  refine and_congr_right fun hrecord => ⟨fun hle => ?_, fun hlate => ?_⟩
  · exact Int.le_trans hfresh (unixMilli_mono (hinTime first hfirst record hrecord hle))
  · rw [← UInt64.not_lt]
    exact fun hlt => absurd (hbefore record hrecord hlt) (Int.not_lt.mpr hlate)

theorem onlyFresh_untouched_iff {s : Storage} {cutoffMs : Int}
    (hexpired : ∀ record ∈ s.streamRecords name, unixMilli record.msg.publishedAt < cutoffMs) :
    OnlyFresh name cutoffMs s s ↔ SomeFresh name cutoffMs s := by
  have hnone (record : StreamRecord) (hrecord : record ∈ s.streamRecords name) :
      ¬Fresh cutoffMs record := Int.not_le.mpr (hexpired record hrecord)
  constructor
  · intro honly
    refine .inl (List.eq_nil_iff_forall_not_mem.mpr fun record hrecord => ?_)
    exact hnone record hrecord ((honly record).mp hrecord).2
  · rintro (hempty | ⟨record, hrecord, hfresh⟩)
    · intro record
      rw [hempty]
      simp
    · exact absurd hfresh (hnone record hrecord)

/-- What a call leaves once it has returned without an error, which it does unless a call to
the storage fails. -/
def Leaves (disk : Disk) (exact : Storage → Prop) (given : Prop) (refused : Option Err)
    (s : StreamQueue × Disk) : Prop :=
  (refused = none → (exact s.2.storage ↔ given)) ∧ (disk.Quiet → refused = none)

theorem expireByAge_leaves {maxAge : Duration} (hpresent : disk.present = true) (hage : 0 < maxAge)
    (hinTime : InTime name disk.storage) :
    (expireByAge name maxAge now).Returns (sq, disk)
      (Leaves disk (OnlyFresh name (unixMilli (now - maxAge)) disk.storage)
        (SomeFresh name (unixMilli (now - maxAge)) disk.storage)) := by
  have hquiet {text : String} (hfault : disk.faults 0 = some text) : ¬disk.Quiet := fun h => by
    rw [h] at hfault
    cases hfault
  rw [expireByAge, if_pos hage, returns_bind, returns_readStorage]
  cases hfault : disk.faults 0 with
  | some text =>
    rw [Disk.read_failed hfault]
    exact ⟨by rintro ⟨⟩, fun h => absurd h (hquiet hfault)⟩
  | none =>
    rw [Disk.read_succeeded hfault]
    rcases disk.storage.getStreamMessageByTimestamp_cases name (unixMilli (now - maxAge)) with
      ⟨hzero, hexpired⟩ | ⟨first, hfirst, hfound, hfresh, hbefore⟩
    · simp only [hzero, UInt64.lt_irrefl, if_false]
      exact ⟨fun _ => onlyFresh_untouched_iff hexpired, fun _ => rfl⟩
    · have hsome : SomeFresh name (unixMilli (now - maxAge)) disk.storage :=
        .inr ⟨first, hfirst, hfresh⟩
      have honly {s' : Storage} (hleft : ∀ record, record ∈ s'.streamRecords name ↔
          record ∈ disk.storage.streamRecords name ∧ first.seq ≤ record.seq) :
          OnlyFresh name (unixMilli (now - maxAge)) disk.storage s' :=
        onlyFresh_of_first hinTime hfirst hfresh hbefore hleft
      simp only [hfound]
      by_cases hpositive : 0 < first.seq
      · rw [if_pos hpositive, returns_writeStorage]
        have hpresent : (disk.called disk.storage).present = true := hpresent
        cases hrefused : (disk.called disk.storage).faults 0 with
        | some text =>
          rw [Disk.write_failed hpresent hrefused]
          refine ⟨by rintro ⟨⟩, fun h => ?_⟩
          change disk.faults 1 = some text at hrefused
          rw [h] at hrefused
          cases hrefused
        | none =>
          rw [Disk.write_succeeded hpresent hrefused]
          refine ⟨fun _ => iff_of_true (honly fun record => ?_) hsome, fun _ => rfl⟩
          exact Storage.mem_deleteStreamMessagesBefore
      · -- The first number of all is zero only once the counter has wrapped.
        rw [if_neg hpositive]
        refine ⟨fun _ => iff_of_true (honly fun record => ?_) hsome, fun _ => rfl⟩
        have hle : first.seq ≤ record.seq := UInt64.le_trans (UInt64.not_lt.mp hpositive) UInt64.zero_le
        exact (and_iff_left hle).symm

/-- With an age and no limit for the size, a call leaves exactly what has not expired if
and only if something has not, or nothing was there. -/
theorem runRetention_onlyFresh_iff (rounds : Nat) (hpresent : disk.present = true)
    (hage : 0 < sq.retentionMaxAge) (hbytes : sq.retentionMaxBytes ≤ 0)
    (hinTime : InTime sq.name disk.storage) :
    (runRetention now rounds).Returns (sq, disk) fun result s =>
      ∃ refused, result = .returned refused ∧
        Leaves disk (OnlyFresh sq.name (unixMilli (now - sq.retentionMaxAge)) disk.storage)
          (SomeFresh sq.name (unixMilli (now - sq.retentionMaxAge)) disk.storage) refused s := by
  have hrun : ¬(disk.present = false ∨ sq.retentionMaxAge = 0 ∧ sq.retentionMaxBytes = 0) := by
    rintro (hmissing | ⟨hzero, _⟩)
    · exact Bool.false_ne_true (hmissing.symm.trans hpresent)
    · exact hage.ne' hzero
  rw [runRetention, returns_bind, returns_step, returns_done]
  simp only [if_neg hrun, returns_bind]
  refine (expireByAge_leaves hpresent hage hinTime).mono fun refused s hleaves => ?_
  cases refused with
  | some err => exact ⟨some err, rfl, hleaves⟩
  | none =>
    simp only [if_neg (Int.not_lt.mpr hbytes)]
    exact ⟨none, rfl, hleaves⟩

def briefEvents : StreamQueue := { new "events" (.ok 0) with retentionMaxAge := nanosecondsPerSecond }

def eventAt (publishedAt : Time) : Message := ⟨"a", "events", [], ∅, 0, publishedAt, 0, "", 0⟩

def twoEvents : Disk where
  present := true
  storage := (Storage.empty.saveStreamMessage "events" 1 (eventAt 0)).saveStreamMessage "events" 2
    (eventAt (10 * nanosecondsPerSecond))
  faults := fun _ => none

theorem twoEvents_inTime : InTime "events" twoEvents.storage := by
  unfold InTime
  decide

/-- Ten seconds after the first event only the second is left. -/
theorem runRetention_onlyFresh_second :
    (runRetention (10 * nanosecondsPerSecond) 0).Returns (briefEvents, twoEvents) fun result s =>
      result = .returned none ∧
        OnlyFresh "events" (unixMilli (9 * nanosecondsPerSecond)) twoEvents.storage s.2.storage := by
  have hsome : SomeFresh "events" (unixMilli (9 * nanosecondsPerSecond)) twoEvents.storage := by
    unfold SomeFresh Fresh
    decide
  refine (runRetention_onlyFresh_iff 0 rfl (by decide) (by decide) twoEvents_inTime).mono
    fun result s ⟨refused, hresult, hleaves⟩ => ?_
  have hnone : refused = none := hleaves.2 rfl
  exact ⟨hresult.trans (congrArg Retention.returned hnone), (hleaves.1 hnone).mpr hsome⟩

/-- Once both have expired, both are kept. -/
theorem runRetention_keeps_expired :
    InTime "events" twoEvents.storage ∧
    (runRetention (20 * nanosecondsPerSecond) 0).Returns (briefEvents, twoEvents) fun result s =>
      result = .returned none ∧
        ¬OnlyFresh "events" (unixMilli (19 * nanosecondsPerSecond)) twoEvents.storage
          s.2.storage := by
  refine ⟨twoEvents_inTime, rfl, fun honly => ?_⟩
  have hfirst := honly ⟨"events", 1, eventAt 0⟩
  revert hfirst
  unfold Fresh
  decide

end StreamQueue

end QwerQ
