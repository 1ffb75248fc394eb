import QwerQ.Stream

/-! The stored messages of a stream: which numbers there are, the highest of them, and
what saving and deleting does to them. -/
namespace QwerQ.Storage
open List
variable {s : Storage} {queue : String} {record other : StreamRecord} {seq n : UInt64}

theorem mem_streamRecords :
    record ∈ s.streamRecords queue ↔ record ∈ s.streams.entries ∧ record.queue = queue := by
  rw [streamRecords, (perm_insertionSort _ _).mem_iff, mem_filter, decide_eq_true_eq]

theorem mem_saveStreamMessage {msg : Message} :
    other ∈ (s.saveStreamMessage queue seq msg).streamRecords queue ↔
      other = ⟨queue, seq, msg⟩ ∨ other ∈ s.streamRecords queue ∧ other.seq ≠ seq := by
  rw [mem_streamRecords, mem_streamRecords, saveStreamMessage, KeyedMap.mem_entries_insert]
  constructor
  · rintro ⟨⟨hmem, hkey⟩ | rfl, hqueue⟩
    · exact .inr ⟨⟨hmem, hqueue⟩, fun hseq => hkey (Prod.ext hqueue hseq)⟩
    · exact .inl rfl
  · rintro (rfl | ⟨⟨hmem, hqueue⟩, hseq⟩)
    · exact ⟨.inr rfl, rfl⟩
    · exact ⟨.inl ⟨hmem, fun hkey => hseq (congrArg Prod.snd hkey)⟩, hqueue⟩

theorem mem_deleteStreamMessagesBefore :
    other ∈ (s.deleteStreamMessagesBefore queue seq).streamRecords queue ↔
      other ∈ s.streamRecords queue ∧ seq ≤ other.seq := by
  rw [mem_streamRecords, mem_streamRecords, deleteStreamMessagesBefore, KeyedMap.entries_filter,
    mem_filter, decide_eq_true_eq, not_and, UInt64.not_lt]
  constructor
  · rintro ⟨⟨hmem, hkept⟩, hqueue⟩
    exact ⟨⟨hmem, hqueue⟩, hkept hqueue⟩
  · rintro ⟨⟨hmem, hqueue⟩, hseq⟩
    exact ⟨⟨hmem, fun _ => hseq⟩, hqueue⟩

theorem streamRecords_increasing (queue : String) (s : Storage) :
    (s.streamRecords queue).Pairwise fun left right => left.seq < right.seq := by
  have hsorted : (s.streamRecords queue).Pairwise fun left right => left.seq ≤ right.seq :=
    pairwise_insertionSort (fun left right : StreamRecord => left.seq ≤ right.seq) _
  have hnodup : (s.streamRecords queue).Nodup :=
    (perm_insertionSort _ _).nodup_iff.mpr (s.streams.nodup.of_map.filter _)
  refine (hsorted.and hnodup).imp_of_mem ?_
  rintro left right hleft hright ⟨hle, hne⟩
  have ⟨hl, hlq⟩ := mem_streamRecords.mp hleft
  have ⟨hr, hrq⟩ := mem_streamRecords.mp hright
  refine UInt64.lt_of_le_of_ne hle fun hseq => hne ?_
  exact s.streams.eq_of_key_eq hl hr (Prod.ext (hlq.trans hrq.symm) hseq)

theorem le_foldl_max (records : List StreamRecord) (start n : UInt64) :
    n ≤ records.foldl (fun seq record => max seq record.seq) start ↔
      n ≤ start ∨ ∃ record ∈ records, n ≤ record.seq := by
  induction records generalizing start with
  | nil => simp
  | cons first rest ih =>
    have hmax : n ≤ max start first.seq ↔ n ≤ start ∨ n ≤ first.seq := by
      rw [show max start first.seq = if start ≤ first.seq then first.seq else start from rfl]
      grind
    rw [foldl_cons, ih, hmax, or_assoc]
    simp

theorem le_getStreamSequence_iff :
    n ≤ s.getStreamSequence queue ↔ n = 0 ∨ ∃ record ∈ s.streamRecords queue, n ≤ record.seq := by
  rw [getStreamSequence, le_foldl_max]
  simp only [mem_filter, decide_eq_true_eq, mem_streamRecords, UInt64.le_zero_iff]

theorem le_getStreamSequence (h : record ∈ s.streamRecords queue) :
    record.seq ≤ s.getStreamSequence queue :=
  le_getStreamSequence_iff.mpr (.inr ⟨record, h, UInt64.le_refl _⟩)

theorem getStreamSequence_stored (h : s.getStreamSequence queue ≠ 0) :
    ∃ record ∈ s.streamRecords queue, record.seq = s.getStreamSequence queue := by
  have hself : s.getStreamSequence queue ≤ s.getStreamSequence queue := UInt64.le_refl _
  have ⟨record, hmem, hle⟩ := (le_getStreamSequence_iff.mp hself).resolve_left h
  exact ⟨record, hmem, UInt64.le_antisymm (le_getStreamSequence hmem) hle⟩

theorem getStreamSequence_le (h : ∀ record ∈ s.streamRecords queue, record.seq ≤ n) :
    s.getStreamSequence queue ≤ n := by
  by_cases hzero : s.getStreamSequence queue = 0
  · rw [hzero]
    exact UInt64.zero_le
  · have ⟨record, hmem, hseq⟩ := getStreamSequence_stored hzero
    exact hseq ▸ h record hmem

theorem getStreamSequence_saveStreamMessage (msg : Message) (s : Storage) :
    s.getStreamSequence queue ≤ (s.saveStreamMessage queue seq msg).getStreamSequence queue ∧
      seq ≤ (s.saveStreamMessage queue seq msg).getStreamSequence queue := by
  have hnew : seq ≤ (s.saveStreamMessage queue seq msg).getStreamSequence queue :=
    le_getStreamSequence (mem_saveStreamMessage.mpr (.inl rfl))
  refine ⟨?_, hnew⟩
  by_cases hzero : s.getStreamSequence queue = 0
  · rw [hzero]
    exact UInt64.zero_le
  · have ⟨record, hmem, hseq⟩ := getStreamSequence_stored hzero
    rw [← hseq]
    by_cases hsame : record.seq = seq
    · rwa [hsame]
    · exact le_getStreamSequence (mem_saveStreamMessage.mpr (.inr ⟨hmem, hsame⟩))

theorem getStreamSequence_deleteStreamMessagesBefore (h : seq ≤ s.getStreamSequence queue) :
    s.getStreamSequence queue ≤
      (s.deleteStreamMessagesBefore queue seq).getStreamSequence queue := by
  by_cases hzero : s.getStreamSequence queue = 0
  · rw [hzero]
    exact UInt64.zero_le
  · have ⟨record, hmem, hseq⟩ := getStreamSequence_stored hzero
    rw [← hseq] at h ⊢
    exact le_getStreamSequence (mem_deleteStreamMessagesBefore.mpr ⟨hmem, h⟩)

theorem getStreamMessageByTimestamp_le (timestampMs : Int) (s : Storage) :
    s.getStreamMessageByTimestamp queue timestampMs ≤ s.getStreamSequence queue := by
  rw [getStreamMessageByTimestamp]
  cases hfind : (s.streamRecords queue).find? _ with
  | none => exact UInt64.zero_le
  | some record => exact le_getStreamSequence (mem_of_find?_eq_some hfind)

/-- The message found by its time is the first that is late enough; with none the answer is
zero, which is no message's number. -/
theorem getStreamMessageByTimestamp_cases (queue : String) (timestampMs : Int) (s : Storage) :
    (s.getStreamMessageByTimestamp queue timestampMs = 0 ∧
      ∀ record ∈ s.streamRecords queue, unixMilli record.msg.publishedAt < timestampMs) ∨
    ∃ first ∈ s.streamRecords queue, s.getStreamMessageByTimestamp queue timestampMs = first.seq ∧
      timestampMs ≤ unixMilli first.msg.publishedAt ∧
      ∀ record ∈ s.streamRecords queue, record.seq < first.seq →
        unixMilli record.msg.publishedAt < timestampMs := by
  have hget : s.getStreamMessageByTimestamp queue timestampMs = (((s.streamRecords queue).find?
      fun record => timestampMs ≤ unixMilli record.msg.publishedAt).map StreamRecord.seq).getD 0 := rfl
  rw [hget]
  cases hfind : (s.streamRecords queue).find?
      fun record => timestampMs ≤ unixMilli record.msg.publishedAt with
  | none =>
    refine .inl ⟨rfl, fun record hrecord => ?_⟩
    simpa using find?_eq_none.mp hfind record hrecord
  | some first =>
    have ⟨hlate, older, newer, hsplit, holder⟩ := find?_eq_some_iff_append.mp hfind
    refine .inr ⟨first, mem_of_find?_eq_some hfind, rfl, of_decide_eq_true hlate, ?_⟩
    intro record hrecord hbefore
    have hincreasing := s.streamRecords_increasing queue
    rw [hsplit, mem_append, mem_cons] at hrecord
    rw [hsplit, pairwise_append, pairwise_cons] at hincreasing
    rcases hrecord with hold | rfl | hnew
    · simpa using holder record hold
    · exact absurd hbefore (UInt64.lt_irrefl _)
    · exact absurd hbefore (UInt64.lt_asymm (hincreasing.2.1.1 record hnew))

theorem getOldestStreamSequence_stored (h : s.streamRecords queue ≠ []) :
    ∃ record ∈ s.streamRecords queue, record.seq = s.getOldestStreamSequence queue := by
  rw [getOldestStreamSequence]
  cases hrecords : s.streamRecords queue with
  | nil => exact absurd hrecords h
  | cons first rest => exact ⟨first, mem_cons_self, rfl⟩

theorem getOldestStreamSequence_le (h : record ∈ s.streamRecords queue) :
    s.getOldestStreamSequence queue ≤ record.seq := by
  have hincreasing := s.streamRecords_increasing queue
  rw [getOldestStreamSequence]
  cases hrecords : s.streamRecords queue with
  | nil => simp [hrecords] at h
  | cons first rest =>
    rw [hrecords] at h hincreasing
    rcases mem_cons.mp h with rfl | hrest
    · exact UInt64.le_refl _
    · exact UInt64.le_of_lt ((pairwise_cons.mp hincreasing).1 record hrest)

end QwerQ.Storage
