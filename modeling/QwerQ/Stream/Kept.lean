import QwerQ.Stream.Size
import Mathlib.Data.List.Sort

/-! What retention by size leaves of a stream with no gaps. The scan reads the last hundred
messages, the hundred before them and so on; what is left at the front is read as a full
batch from the oldest message on, so that the messages between are counted twice. -/
namespace QwerQ
open List Process UInt64

namespace Storage

def Contiguous (name : String) (s : Storage) : Prop :=
  ∀ seq, s.getOldestStreamSequence name ≤ seq → seq ≤ s.getStreamSequence name →
    ∃ record ∈ s.streamRecords name, record.seq = seq

variable {maxBytes : Int}

section Numbers
variable {s : Storage} {name : String}

theorem streamRecords_deleteStreamMessagesBefore (seq : UInt64) :
    (s.deleteStreamMessagesBefore name seq).streamRecords name =
      (s.streamRecords name).filter fun record => seq ≤ record.seq := by
  have : Std.Irrefl fun left right : StreamRecord => left.seq < right.seq :=
    ⟨fun record => UInt64.lt_irrefl record.seq⟩
  have : Std.Antisymm fun left right : StreamRecord => left.seq < right.seq :=
    ⟨fun _ _ hlt hgt => absurd hgt (UInt64.lt_asymm hlt)⟩
  refine (streamRecords_increasing name _).eq_of_mem_iff
    ((s.streamRecords_increasing name).filter _) fun record => ?_
  rw [mem_deleteStreamMessagesBefore, mem_filter, decide_eq_true_eq]

theorem Contiguous.numbers (h : Contiguous name s) :
    (s.streamRecords name).map (·.seq.toNat) = List.range' (s.getOldestStreamSequence name).toNat
      ((s.getStreamSequence name).toNat + 1 - (s.getOldestStreamSequence name).toNat) := by
  have hincreasing : ((s.streamRecords name).map (·.seq.toNat)).Pairwise (· < ·) :=
    pairwise_map.mpr ((s.streamRecords_increasing name).imp lt_iff_toNat_lt.mp)
  refine hincreasing.eq_of_mem_iff pairwise_lt_range' fun n => ?_
  rw [mem_map, mem_range'_1]
  constructor
  · rintro ⟨record, hrecord, rfl⟩
    have holdest := le_iff_toNat_le.mp (getOldestStreamSequence_le hrecord)
    have hnewest := le_iff_toNat_le.mp (le_getStreamSequence hrecord)
    omega
  · rintro ⟨hlow, hhigh⟩
    have hlt : n < 2 ^ 64 := by
      have := (s.getStreamSequence name).toNat_lt
      omega
    have hn : (UInt64.ofNat n).toNat = n := toNat_ofNat_of_lt' hlt
    have ⟨record, hrecord, hseq⟩ := h (.ofNat n) (le_iff_toNat_le.mpr (by omega))
      (le_iff_toNat_le.mpr (by omega))
    exact ⟨record, hrecord, by rw [hseq, hn]⟩

theorem Contiguous.length (h : Contiguous name s) (hstored : s.streamRecords name ≠ []) :
    (s.getOldestStreamSequence name).toNat + (s.streamRecords name).length =
      (s.getStreamSequence name).toNat + 1 := by
  have hlength := congrArg List.length h.numbers
  have ⟨record, hrecord, holdest⟩ := getOldestStreamSequence_stored hstored
  have hle := le_iff_toNat_le.mp (le_getStreamSequence hrecord)
  rw [holdest] at hle
  rw [length_map, length_range'] at hlength
  omega

theorem Contiguous.number (h : Contiguous name s) {i : Nat} (hi : i < (s.streamRecords name).length) :
    (s.streamRecords name)[i].seq.toNat = (s.getOldestStreamSequence name).toNat + i := by
  have hnumber := congrArg (·[i]?) h.numbers
  have hlength := congrArg List.length h.numbers
  rw [length_map, length_range'] at hlength
  simpa [hi, ← hlength] using hnumber

theorem Contiguous.filter_eq_drop (h : Contiguous name s) {seq : UInt64} {before : Nat}
    (hseq : seq.toNat = (s.getOldestStreamSequence name).toNat + before) :
    (s.streamRecords name).filter (fun record => seq ≤ record.seq) =
      (s.streamRecords name).drop before := by
  have holder : ∀ record ∈ (s.streamRecords name).take before, ¬seq ≤ record.seq := by
    intro record hrecord
    have ⟨i, hi, hget⟩ := mem_take_iff_getElem.mp hrecord
    have hnumber := h.number (i := i) (by omega)
    rw [hget] at hnumber
    rw [le_iff_toNat_le]
    omega
  have hnewer : ∀ record ∈ (s.streamRecords name).drop before, seq ≤ record.seq := by
    intro record hrecord
    have ⟨i, hi, hget⟩ := mem_drop_iff_getElem.mp hrecord
    have hnumber := h.number (i := before + i) (by omega)
    rw [hget] at hnumber
    rw [le_iff_toNat_le]
    omega
  conv_lhs => rw [← take_append_drop before (s.streamRecords name)]
  rw [filter_append, filter_eq_nil_iff.mpr (by simpa using holder),
    filter_eq_self.mpr (by simpa using hnewer), nil_append]

theorem contiguous_of_numbers {start count : Nat} (hpos : 0 < count)
    (h : (s.streamRecords name).map (·.seq.toNat) = List.range' start count) : Contiguous name s := by
  have hbetween : ∀ record ∈ s.streamRecords name,
      start ≤ record.seq.toNat ∧ record.seq.toNat < start + count := by
    intro record hrecord
    have hmem := mem_map_of_mem (f := (·.seq.toNat)) hrecord
    rwa [h, mem_range'_1] at hmem
  have hstored : s.streamRecords name ≠ [] := fun hnil => by
    have hlength := congrArg List.length h
    rw [hnil, length_map, length_range', length_nil] at hlength
    omega
  have ⟨oldest, holdest, hfirst⟩ := getOldestStreamSequence_stored hstored
  intro seq hlow hhigh
  have hlow := le_iff_toNat_le.mp hlow
  have hhigh := le_iff_toNat_le.mp hhigh
  have hnewest : (s.getStreamSequence name).toNat < start + count := by
    by_cases hzero : s.getStreamSequence name = 0
    · rw [hzero, UInt64.toNat_zero]
      omega
    · have ⟨newest, hmem, hlast⟩ := getStreamSequence_stored hzero
      exact hlast ▸ (hbetween newest hmem).2
  have hbound := (hbetween oldest holdest).1
  rw [hfirst] at hbound
  have hmem : seq.toNat ∈ List.range' start count := mem_range'_1.mpr (by omega)
  rw [← h, mem_map] at hmem
  have ⟨record, hrecord, hseq⟩ := hmem
  exact ⟨record, hrecord, UInt64.toNat_inj.mp hseq⟩

theorem Contiguous.load (h : Contiguous name s) {seq : UInt64} {before : Nat}
    (hseq : seq.toNat = (s.getOldestStreamSequence name).toNat + before) :
    s.loadStreamMessages name seq StreamQueue.retentionBatch =
      ((s.streamRecords name).drop before).take 100 := by
  rw [loadStreamMessages, h.filter_eq_drop hseq]
  rfl

end Numbers

end Storage

namespace StreamQueue
open Weighed

def readAgain (records : List StreamRecord) (count : Nat) : List StreamRecord :=
  if count % 100 = 0 then [] else (records.take 100).drop (count % 100)

/-- What a scan that starts with the first `count` messages before it reads, from the end. -/
def readFrom (records : List StreamRecord) (count : Nat) : List StreamRecord :=
  records.take (count % 100) ++ readAgain records count ++ (records.take count).drop (count % 100)

theorem readFrom_zero (records : List StreamRecord) : readFrom records 0 = [] := by
  simp [readFrom, readAgain]

variable {records : List StreamRecord} {count : Nat} {totalSize maxBytes : Int}

theorem readFrom_short (hpos : 0 < count)
    (hlt : count < 100) : readFrom records count = records.take 100 := by
  have hmod : count % 100 = count := Nat.mod_eq_of_lt hlt
  have hfront : records.take count = (records.take 100).take count := by
    rw [take_take, Nat.min_eq_left (Nat.le_of_lt hlt)]
  have hnone : (records.take count).drop count = [] :=
    drop_eq_nil_of_le (length_take_le ..)
  rw [readFrom, readAgain, hmod, if_neg (Nat.ne_of_gt hpos), hnone, append_nil, hfront,
    take_append_drop]

theorem readFrom_batch (hle : 100 ≤ count) :
    readFrom records count = readFrom records (count - 100) ++
      (records.drop (count - 100)).take 100 := by
  have hmod : (count - 100) % 100 = count % 100 := by omega
  have hsplit : (records.take count).drop (count % 100) =
      (records.take (count - 100)).drop (count % 100) ++ (records.drop (count - 100)).take 100 := by
    have hcount : count - count % 100 = count - 100 - count % 100 + 100 := by omega
    have hstart : count % 100 + (count - 100 - count % 100) = count - 100 := by omega
    rw [drop_take, drop_take, hcount, take_add, drop_drop, hstart]
  simp only [readFrom, readAgain, hmod, hsplit, append_assoc]

/-- How a scan ends that reads those messages from the end. -/
def scanOutcome (maxBytes totalSize : Int) (records : List StreamRecord) : Scanned :=
  match overLimit maxBytes records.reverse totalSize with
  | .error deleteUpTo => .over deleteUpTo
  | .ok _ => .within

theorem scanOutcome_append (maxBytes totalSize : Int) (front back : List StreamRecord) :
    scanOutcome maxBytes totalSize (front ++ back) =
      match overLimit maxBytes back.reverse totalSize with
      | .error deleteUpTo => .over deleteUpTo
      | .ok totalSize => scanOutcome maxBytes totalSize front := by
  rw [scanOutcome, reverse_append, overLimit_append]
  cases overLimit maxBytes back.reverse totalSize <;> rfl

section Scan
variable {s : Storage} {name : String}

/-- The scan of a stream with no gaps whose numbers start at a hundred or later. -/
theorem scanned_contiguous (h : s.Contiguous name)
    (hoff : 100 ≤ (s.getOldestStreamSequence name).toNat) {rounds : Nat}
    {place : UInt64 × Int} (hpos : 0 < count) (hrounds : count ≤ 100 * rounds)
    (hplace : place.1.toNat + 1 = (s.getOldestStreamSequence name).toNat + count) :
    scanned s name (s.getOldestStreamSequence name) maxBytes rounds place =
      scanOutcome maxBytes place.2 (readFrom (s.streamRecords name) count) := by
  -- by induction on the rounds: one round takes a batch off the end of what is to be read
  induction rounds generalizing place count with
  | zero => omega
  | succ rounds ih =>
    have hstart : (batchStart place.1 (s.getOldestStreamSequence name)).toNat = _ :=
      batchStart_toNat (by omega)
    have hinside : ¬place.1 < s.getOldestStreamSequence name := by
      rw [lt_iff_toNat_lt]
      omega
    rw [scanned, scanRound]
    simp only [if_neg hinside]
    by_cases hlong : 100 ≤ count
    · have hbatch : (batchStart place.1 (s.getOldestStreamSequence name)).toNat =
          (s.getOldestStreamSequence name).toNat + (count - 100) := by omega
      have hload := h.load hbatch
      rw [hload, readFrom_batch hlong, scanOutcome_append]
      cases overLimit maxBytes (((s.streamRecords name).drop (count - 100)).take 100).reverse
          place.2 with
      | error deleteUpTo => rfl
      | ok totalSize =>
        by_cases hlast : count = 100
        · have hfirst : batchStart place.1 (s.getOldestStreamSequence name) ≤
              s.getOldestStreamSequence name := le_iff_toNat_le.mpr (by omega)
          simp only [if_pos hfirst, hlast, Nat.sub_self, readFrom_zero]
          rfl
        · have hmore : ¬batchStart place.1 (s.getOldestStreamSequence name) ≤
              s.getOldestStreamSequence name := by
            rw [le_iff_toNat_le]
            omega
          have hone : (1 : UInt64) ≤ batchStart place.1 (s.getOldestStreamSequence name) :=
            le_iff_toNat_le.mpr (by rw [toNat_one]; omega)
          simp only [if_neg hmore]
          refine ih (by omega) (by omega) ?_
          rw [UInt64.toNat_sub_of_le _ _ hone, toNat_one]
          omega
    · have hbatch : (batchStart place.1 (s.getOldestStreamSequence name)).toNat =
          (s.getOldestStreamSequence name).toNat + 0 := by omega
      have hload := h.load hbatch
      have hfirst : batchStart place.1 (s.getOldestStreamSequence name) ≤
          s.getOldestStreamSequence name := le_iff_toNat_le.mpr (by omega)
      rw [hload, drop_zero, readFrom_short hpos (Nat.not_le.mp hlong), scanOutcome]
      cases overLimit maxBytes ((s.streamRecords name).take 100).reverse place.2 with
      | error deleteUpTo => rfl
      | ok totalSize => simp only [if_pos hfirst]

end Scan

theorem scanOutcome_within (hlimit : maxBytes < 2 ^ 63) (hnonneg : 0 ≤ totalSize)
    (h : totalSize + total payloadBytes records ≤ maxBytes) :
    scanOutcome maxBytes totalSize records = .within := by
  rw [scanOutcome, overLimit_within hlimit hnonneg (by rwa [total_reverse])]

theorem scanOutcome_append_within {front back : List StreamRecord} (hlimit : maxBytes < 2 ^ 63)
    (hnonneg : 0 ≤ totalSize) (h : totalSize + total payloadBytes back ≤ maxBytes) :
    scanOutcome maxBytes totalSize (front ++ back) =
      scanOutcome maxBytes (totalSize + total payloadBytes back) front := by
  rw [scanOutcome_append, overLimit_within hlimit hnonneg (by rwa [total_reverse]), total_reverse]

theorem scanOutcome_append_cut (front : List StreamRecord)
    {back : List StreamRecord} (hsums : SumsFit maxBytes back) (hnonneg : 0 ≤ totalSize)
    (hsize : totalSize ≤ maxBytes) (h : maxBytes < totalSize + total payloadBytes back) :
    ∃ older cut,
      back = older ++ cut :: longestSuffix payloadBytes (maxBytes - totalSize) back ∧
      scanOutcome maxBytes totalSize (front ++ back) = .over (cut.seq + 1) := by
  have ⟨older, cut, hsplit, hover⟩ := overLimit_cut hsums hnonneg hsize h
  exact ⟨older, cut, hsplit, by rw [scanOutcome_append, hover]⟩

def remaining (name : String) (s : Storage) : Scanned → Storage
  | .over deleteUpTo => if 0 < deleteUpTo then s.deleteStreamMessagesBefore name deleteUpTo else s
  | _ => s

theorem remaining_wraps {s : Storage} {name : String} {cut : StreamRecord} (hnext : cut.seq + 1 = 0) :
    remaining name s (.over (cut.seq + 1)) = s := by
  rw [remaining, hnext, if_neg (UInt64.lt_irrefl 0)]

section Cut
variable {s : Storage} {name : String} {older newer : List StreamRecord} {cut : StreamRecord}
  (hsplit : s.streamRecords name = older ++ cut :: newer)
include hsplit

theorem cut_increasing : (∀ record ∈ older, record.seq < cut.seq) ∧
    ∀ record ∈ newer, cut.seq < record.seq := by
  have hincreasing := s.streamRecords_increasing name
  rw [hsplit, pairwise_append, pairwise_cons] at hincreasing
  exact ⟨fun record hrecord => hincreasing.2.2 record hrecord cut mem_cons_self,
    hincreasing.2.1.1⟩

theorem remaining_cut (hnext : cut.seq + 1 ≠ 0) :
    (remaining name s (.over (cut.seq + 1))).streamRecords name = newer := by
  have ⟨holder, hnewer⟩ := cut_increasing hsplit
  have hone : (cut.seq + 1).toNat = cut.seq.toNat + 1 := by
    have hne : (cut.seq + 1).toNat ≠ 0 := fun h => hnext (UInt64.toNat_inj.mp h)
    have hlt := cut.seq.toNat_lt
    rw [UInt64.toNat_add, toNat_one] at hne ⊢
    omega
  have hpositive : 0 < cut.seq + 1 := UInt64.pos_iff_ne_zero.mpr hnext
  have hcut : ¬cut.seq + 1 ≤ cut.seq := by
    rw [le_iff_toNat_le]
    omega
  have hgone : ∀ record ∈ older, ¬cut.seq + 1 ≤ record.seq := by
    intro record hrecord
    have hlt := lt_iff_toNat_lt.mp (holder record hrecord)
    rw [le_iff_toNat_le]
    omega
  have hkept : ∀ record ∈ newer, cut.seq + 1 ≤ record.seq := by
    intro record hrecord
    have hlt := lt_iff_toNat_lt.mp (hnewer record hrecord)
    rw [le_iff_toNat_le]
    omega
  rw [remaining, if_pos hpositive, Storage.streamRecords_deleteStreamMessagesBefore, hsplit,
    filter_append, filter_eq_nil_iff.mpr (by simpa using hgone), filter_cons_of_neg
    (by simpa using hcut), filter_eq_self.mpr (by simpa using hkept), nil_append]

/-- The number to delete up to wraps if the cut is at the highest number there is. -/
theorem cut_wraps_iff : cut.seq + 1 = 0 ↔ newer = [] ∧ s.getStreamSequence name + 1 = 0 := by
  have ⟨holder, hnewer⟩ := cut_increasing hsplit
  have hmem : cut ∈ s.streamRecords name := by simp [hsplit]
  constructor
  · intro hzero
    have hmax : cut.seq.toNat = 2 ^ 64 - 1 := by
      have hnat := congrArg UInt64.toNat hzero
      have hlt := cut.seq.toNat_lt
      rw [UInt64.toNat_add, toNat_one, UInt64.toNat_zero] at hnat
      omega
    have hle := le_iff_toNat_le.mp (Storage.le_getStreamSequence hmem)
    have hsame : s.getStreamSequence name = cut.seq := by
      have hlt := (s.getStreamSequence name).toNat_lt
      exact UInt64.toNat_inj.mp (by omega)
    refine ⟨eq_nil_iff_forall_not_mem.mpr fun record hrecord => ?_, hsame ▸ hzero⟩
    have hlt := lt_iff_toNat_lt.mp (hnewer record hrecord)
    have hbound := record.seq.toNat_lt
    omega
  · rintro ⟨rfl, hzero⟩
    have hle : s.getStreamSequence name ≤ cut.seq := by
      refine Storage.getStreamSequence_le fun record hrecord => ?_
      rw [hsplit, mem_append, mem_singleton] at hrecord
      rcases hrecord with hold | rfl
      · exact UInt64.le_of_lt (holder record hold)
      · exact UInt64.le_refl _
    rw [UInt64.le_antisymm (Storage.le_getStreamSequence hmem) hle]
    exact hzero

end Cut

section Parts
variable {s : Storage} {name : String} {front again rest : List StreamRecord}
  (hsums : SumsFit maxBytes (s.streamRecords name))
  (hsplit : s.streamRecords name = front ++ (again ++ rest))
include hsums hsplit

theorem sums_back : SumsFit maxBytes (again ++ rest) :=
  hsums.of_subset (hsplit ▸ subset_append_right _ _)

/-- The cut comes before anything is read again. -/
theorem remaining_of_back (hbytes : 0 ≤ maxBytes) (hover : maxBytes < total payloadBytes (again ++ rest)) :
    (remaining name s (scanOutcome maxBytes 0 (front ++ again ++ (again ++ rest)))).streamRecords name =
        longestSuffix payloadBytes maxBytes (s.streamRecords name) ↔
      (s.getStreamSequence name + 1 = 0 →
        longestSuffix payloadBytes maxBytes (s.streamRecords name) ≠ []) := by
  have ⟨older, cut, hback, hscan⟩ := scanOutcome_append_cut (front ++ again) (sums_back hsums hsplit)
    (Int.le_refl 0) hbytes (by rwa [Int.zero_add] : maxBytes < 0 + total payloadBytes (again ++ rest))
  have hkept : longestSuffix payloadBytes maxBytes (s.streamRecords name) =
      longestSuffix payloadBytes maxBytes (again ++ rest) := by
    rw [hsplit, longestSuffix_append_of_lt payloadBytes_nonneg hover]
  rw [Int.sub_zero, ← hkept] at hback
  have hcut : s.streamRecords name =
      front ++ older ++ cut :: longestSuffix payloadBytes maxBytes (s.streamRecords name) := by
    rw [append_assoc, ← hback]
    exact hsplit
  rw [hscan]
  by_cases hzero : cut.seq + 1 = 0
  · have ⟨hnil, hmax⟩ := (cut_wraps_iff hcut).mp hzero
    rw [remaining_wraps hzero]
    refine iff_of_false (fun hsame => ?_) fun hends => hends hmax hnil
    have hlength := congrArg List.length hcut
    rw [← hsame, length_append, length_cons] at hlength
    omega
  · rw [remaining_cut hcut hzero]
    exact iff_of_true rfl fun hmax hnil => hzero ((cut_wraps_iff hcut).mpr ⟨hnil, hmax⟩)

/-- The cut comes among the messages that are read again, all of which would have fit. -/
theorem remaining_of_again (hrest : again ≠ [] → rest ≠ [])
    (hfits : total payloadBytes (again ++ rest) ≤ maxBytes)
    (hover : maxBytes < total payloadBytes (again ++ rest) + total payloadBytes again) :
    (remaining name s (scanOutcome maxBytes 0 (front ++ again ++ (again ++ rest)))).streamRecords name ≠
      longestSuffix payloadBytes maxBytes (s.streamRecords name) := by
  have hnonneg := total_nonneg payloadBytes_nonneg (again ++ rest)
  have ⟨older, cut, hagain, hscan⟩ := scanOutcome_append_cut front
    ((sums_back hsums hsplit).of_subset (subset_append_left _ _)) hnonneg hfits hover
  have hcut : s.streamRecords name = front ++ older ++ cut :: (longestSuffix payloadBytes
      (maxBytes - total payloadBytes (again ++ rest)) again ++ rest) := by
    conv_lhs => rw [hsplit, hagain]
    simp
  have hlater : rest ≠ [] := hrest fun hnil => by simp [hnil] at hagain
  have hzero : cut.seq + 1 ≠ 0 := fun hzero =>
    hlater (append_eq_nil_iff.mp ((cut_wraps_iff hcut).mp hzero).1).2
  have hread : scanOutcome maxBytes 0 (front ++ again ++ (again ++ rest)) = .over (cut.seq + 1) := by
    rw [scanOutcome_append_within hsums.limit (Int.le_refl 0) (by rwa [Int.zero_add]), Int.zero_add,
      hscan]
  intro hsame
  rw [hread, remaining_cut hcut hzero] at hsame
  rw [hsplit, longestSuffix_append_of_le hfits] at hsame
  have hlength := congrArg List.length hsame
  have hagain := congrArg List.length hagain
  simp only [length_append, length_cons] at hlength hagain
  omega

omit hsums hsplit in
theorem scanOutcome_twice (hlimit : maxBytes < 2 ^ 63)
    (hfits : total payloadBytes (again ++ rest) + total payloadBytes again ≤ maxBytes) :
    scanOutcome maxBytes 0 (front ++ again ++ (again ++ rest)) =
      scanOutcome maxBytes (total payloadBytes (again ++ rest) + total payloadBytes again) front := by
  have hnonneg := total_nonneg payloadBytes_nonneg again
  have hback : total payloadBytes (again ++ rest) ≤ maxBytes := by omega
  have hbackNonneg := total_nonneg payloadBytes_nonneg (again ++ rest)
  rw [scanOutcome_append_within hlimit (Int.le_refl 0) (by rwa [Int.zero_add]), Int.zero_add,
    scanOutcome_append_within hlimit hbackNonneg hfits]

theorem remaining_of_front_cut (hstored : s.streamRecords name ≠ [])
    (hfits : total payloadBytes (again ++ rest) + total payloadBytes again ≤ maxBytes)
    (hover : maxBytes < total payloadBytes (again ++ rest) + total payloadBytes again +
      total payloadBytes front) :
    (remaining name s (scanOutcome maxBytes
        (total payloadBytes (again ++ rest) + total payloadBytes again) front)).streamRecords name =
          longestSuffix payloadBytes maxBytes (s.streamRecords name) ↔
      total payloadBytes (longestSuffix payloadBytes maxBytes (s.streamRecords name)) +
          total payloadBytes again ≤ maxBytes ∧
        (s.getStreamSequence name + 1 = 0 →
          longestSuffix payloadBytes maxBytes (s.streamRecords name) ≠ []) := by
  have hempty : again ++ rest = [] → again = [] := fun h => (append_eq_nil_iff.mp h).1
  have hfront := hsums.of_subset (hsplit ▸ subset_append_left front (again ++ rest))
  have hbackNonneg := total_nonneg payloadBytes_nonneg (again ++ rest)
  generalize again ++ rest = back at *
  have hnonneg := total_nonneg payloadBytes_nonneg again
  have ⟨older, cut, hfront, hscan⟩ := scanOutcome_append_cut [] hfront (by omega) hfits hover
  have hkept : longestSuffix payloadBytes maxBytes (s.streamRecords name) =
      longestSuffix payloadBytes (maxBytes - total payloadBytes back) front ++ back := by
    rw [hsplit, longestSuffix_append_of_le (by omega)]
  generalize hlow : maxBytes - (total payloadBytes back + total payloadBytes again) = lower at hfront
  have hcut : s.streamRecords name =
      older ++ cut :: (longestSuffix payloadBytes lower front ++ back) := by
    conv_lhs => rw [hsplit, hfront]
    simp
  rw [← nil_append front, hscan]
  by_cases hzero : cut.seq + 1 = 0
  · have ⟨hnil, hmax⟩ := (cut_wraps_iff hcut).mp hzero
    have ⟨hlast, hnone⟩ := append_eq_nil_iff.mp hnil
    have hsame : lower = maxBytes - total payloadBytes back := by
      rw [hempty hnone, total_nil] at hlow
      omega
    rw [← hsame, hlast, hnone] at hkept
    rw [remaining_wraps hzero, hkept]
    exact iff_of_false hstored fun hcounts => hcounts.2 hmax rfl
  · have hshorter := suffix_longestSuffix (longestSuffix_suffix payloadBytes lower front)
      (Int.le_trans (total_longestSuffix_le (by omega))
        (by omega : lower ≤ maxBytes - total payloadBytes back))
    have hends : s.getStreamSequence name + 1 = 0 →
        longestSuffix payloadBytes maxBytes (s.streamRecords name) ≠ [] := by
      intro hmax hnil
      rw [hkept, append_eq_nil_iff] at hnil
      rw [hnil.1, suffix_nil] at hshorter
      exact hzero ((cut_wraps_iff hcut).mpr ⟨by rw [hshorter, hnil.2]; rfl, hmax⟩)
    rw [remaining_cut hcut hzero, and_iff_left hends, hkept, append_left_inj,
      longestSuffix_eq_iff (by omega) (by omega), total_append]
    omega

/-- The cut comes in front of what is read again, if there is one. -/
theorem remaining_of_front (hstored : s.streamRecords name ≠ [])
    (hfits : total payloadBytes (again ++ rest) + total payloadBytes again ≤ maxBytes) :
    (remaining name s (scanOutcome maxBytes 0 (front ++ again ++ (again ++ rest)))).streamRecords name =
        longestSuffix payloadBytes maxBytes (s.streamRecords name) ↔
      total payloadBytes (longestSuffix payloadBytes maxBytes (s.streamRecords name)) +
          total payloadBytes again ≤ maxBytes ∧
        (s.getStreamSequence name + 1 = 0 →
          longestSuffix payloadBytes maxBytes (s.streamRecords name) ≠ []) := by
  rw [scanOutcome_twice hsums.limit hfits]
  by_cases hall : total payloadBytes (again ++ rest) + total payloadBytes again +
      total payloadBytes front ≤ maxBytes
  · have hnonneg := total_nonneg payloadBytes_nonneg again
    have hbackNonneg := total_nonneg payloadBytes_nonneg (again ++ rest)
    have htotal : total payloadBytes (s.streamRecords name) =
        total payloadBytes front + total payloadBytes (again ++ rest) := by
      rw [hsplit, total_append]
    have hkept : longestSuffix payloadBytes maxBytes (s.streamRecords name) = s.streamRecords name :=
      longestSuffix_of_le (by omega)
    rw [scanOutcome_within hsums.limit (by omega) hall, hkept]
    exact iff_of_true rfl ⟨by omega, fun _ => hstored⟩
  · exact remaining_of_front_cut hsums hsplit hstored hfits (Int.not_le.mp hall)

end Parts

theorem readAgain_rest (records : List StreamRecord) :
    ∃ rest, records.drop (records.length % 100) = readAgain records records.length ++ rest ∧
      (readAgain records records.length ≠ [] → rest ≠ []) := by
  rw [readAgain]
  by_cases hwhole : records.length % 100 = 0
  · rw [if_pos hwhole]
    exact ⟨_, rfl, fun h => absurd rfl h⟩
  · rw [if_neg hwhole]
    refine ⟨records.drop 100, ?_, fun hagain hrest => hagain ?_⟩
    · have hle : records.length % 100 ≤ (records.take 100).length := by
        rw [length_take]
        omega
      rw [← drop_append_of_le_length hle, take_append_drop]
    · have hlength := drop_eq_nil_iff.mp hrest
      refine drop_eq_nil_of_le ?_
      rw [length_take]
      omega

/-- The count that the scan makes is right: it stops before it reads anything again, or
what it reads again fits too; and the newest message is not a lone one with the highest
number there is that does not fit. -/
structure RightCount (name : String) (maxBytes : Int) (s : Storage) : Prop where
  fits : maxBytes < total payloadBytes ((s.streamRecords name).drop
      ((s.streamRecords name).length % 100)) ∨
    total payloadBytes (longestSuffix payloadBytes maxBytes (s.streamRecords name)) +
      total payloadBytes (readAgain (s.streamRecords name) (s.streamRecords name).length) ≤ maxBytes
  ends : s.getStreamSequence name + 1 = 0 →
    longestSuffix payloadBytes maxBytes (s.streamRecords name) ≠ []

theorem remaining_iff {s : Storage} {name : String} (hsums : SumsFit maxBytes (s.streamRecords name))
    (hstored : s.streamRecords name ≠ []) (hbytes : 0 ≤ maxBytes) :
    (remaining name s (scanOutcome maxBytes 0
        (readFrom (s.streamRecords name) (s.streamRecords name).length))).streamRecords name =
      longestSuffix payloadBytes maxBytes (s.streamRecords name) ↔ RightCount name maxBytes s := by
  have ⟨rest, hback, hrest⟩ := readAgain_rest (s.streamRecords name)
  have hsplit : s.streamRecords name = (s.streamRecords name).take ((s.streamRecords name).length % 100) ++
      (readAgain (s.streamRecords name) (s.streamRecords name).length ++ rest) := by
    rw [← hback, take_append_drop]
  have hcount : RightCount name maxBytes s ↔
      (maxBytes < total payloadBytes (readAgain (s.streamRecords name) (s.streamRecords name).length ++
          rest) ∨
        total payloadBytes (longestSuffix payloadBytes maxBytes (s.streamRecords name)) +
          total payloadBytes (readAgain (s.streamRecords name) (s.streamRecords name).length) ≤ maxBytes) ∧
      (s.getStreamSequence name + 1 = 0 →
        longestSuffix payloadBytes maxBytes (s.streamRecords name) ≠ []) := by
    rw [← hback]
    exact ⟨fun h => ⟨h.fits, h.ends⟩, fun h => ⟨h.1, h.2⟩⟩
  rw [hcount, readFrom, take_length, hback]
  generalize readAgain (s.streamRecords name) (s.streamRecords name).length = again at hsplit hrest ⊢
  have hnonneg := total_nonneg payloadBytes_nonneg again
  by_cases hover : maxBytes < total payloadBytes (again ++ rest)
  · rw [remaining_of_back hsums hsplit hbytes hover, and_iff_right (.inl hover)]
  · have hfits := Int.not_lt.mp hover
    rw [or_iff_right hover]
    by_cases htwice : maxBytes < total payloadBytes (again ++ rest) + total payloadBytes again
    · refine iff_of_false (remaining_of_again hsums hsplit hrest hfits htwice) fun hcounts => ?_
      have hle := suffix_longestSuffix (hsplit ▸ suffix_append _ _) hfits
      have hle := total_le_of_suffix payloadBytes_nonneg hle
      omega
    · exact remaining_of_front hsums hsplit hstored (Int.not_lt.mp htwice)

section Retention
variable {sq : StreamQueue} {disk : Disk}

theorem stored_of_oldest {s : Storage} {name : String} (h : 100 ≤ s.getOldestStreamSequence name) :
    s.streamRecords name ≠ [] := by
  intro hempty
  rw [Storage.getOldestStreamSequence, hempty] at h
  exact absurd h (by decide)

theorem runRetention_remaining (hsound : disk.Sound)
    (hcontiguous : disk.storage.Contiguous sq.name)
    (holdest : 100 ≤ disk.storage.getOldestStreamSequence sq.name)
    (hage : sq.retentionMaxAge = 0) (hbytes : 0 < sq.retentionMaxBytes) (now : Time) (rounds : Nat)
    (hrounds : (disk.storage.streamRecords sq.name).length ≤ 100 * rounds) :
    (runRetention now rounds).Returns (sq, disk) fun result s =>
      result = .returned none ∧
      s.2.storage = remaining sq.name disk.storage (scanOutcome sq.retentionMaxBytes 0
        (readFrom (disk.storage.streamRecords sq.name)
          (disk.storage.streamRecords sq.name).length)) := by
  have hoff : 100 ≤ (disk.storage.getOldestStreamSequence sq.name).toNat :=
    le_iff_toNat_le.mp holdest
  have hpositive : 0 < disk.storage.getOldestStreamSequence sq.name :=
    lt_iff_toNat_lt.mpr (Nat.lt_of_lt_of_le (by decide) hoff)
  have hstored := stored_of_oldest holdest
  have hscan : scanned disk.storage sq.name (disk.storage.getOldestStreamSequence sq.name)
      sq.retentionMaxBytes rounds (disk.storage.getStreamSequence sq.name, 0) = _ :=
    scanned_contiguous hcontiguous hoff (length_pos_iff.mpr hstored) hrounds
      (hcontiguous.length hstored).symm
  rw [Returns, runRetention_bySize now rounds hsound.present hage hbytes,
    expireBySize_run hsound hpositive, hscan, scanOutcome]
  cases overLimit sq.retentionMaxBytes _ 0 with
  | error deleteUpTo =>
    by_cases hdelete : 0 < deleteUpTo
    · simp only [remaining, if_pos hdelete, and_self]
    · simp only [remaining, if_neg hdelete, and_self]
  | ok totalSize => exact ⟨rfl, rfl⟩

/-- Retention by size leaves the longest suffix that fits exactly if the count is right. -/
theorem runRetention_longestSuffix_iff (hsound : disk.Sound)
    (hsums : SumsFit sq.retentionMaxBytes (disk.storage.streamRecords sq.name))
    (hcontiguous : disk.storage.Contiguous sq.name)
    (holdest : 100 ≤ disk.storage.getOldestStreamSequence sq.name)
    (hage : sq.retentionMaxAge = 0) (hbytes : 0 < sq.retentionMaxBytes) (now : Time) (rounds : Nat)
    (hrounds : (disk.storage.streamRecords sq.name).length ≤ 100 * rounds) :
    (runRetention now rounds).Returns (sq, disk) fun result s =>
      result = .returned none ∧
      (s.2.storage.streamRecords sq.name =
          longestSuffix payloadBytes sq.retentionMaxBytes (disk.storage.streamRecords sq.name) ↔
        RightCount sq.name sq.retentionMaxBytes disk.storage) := by
  refine (runRetention_remaining hsound hcontiguous holdest hage hbytes now rounds hrounds).mono ?_
  rintro result s ⟨hresult, hleft⟩
  refine ⟨hresult, ?_⟩
  rw [hleft]
  exact remaining_iff hsums (stored_of_oldest holdest) (Int.le_of_lt hbytes)

end Retention

def limitedEvents (maxBytes : Int) : StreamQueue := ⟨"events", 300, [], 0, maxBytes, 0⟩

def twoSized : Disk where
  present := true
  storage := (Storage.empty.saveStreamMessage "events" 100 (sizedEvent 100 [1, 2]).msg).saveStreamMessage
    "events" 101 (sizedEvent 101 [3, 4]).msg
  faults := fun _ => none

theorem twoSized_contiguous : twoSized.storage.Contiguous "events" := by
  have hnumbers : (twoSized.storage.streamRecords "events").map (·.seq.toNat) = List.range' 100 2 := by
    decide
  exact Storage.contiguous_of_numbers (by decide) hnumbers

theorem runRetention_longestSuffix_second :
    (runRetention 0 1).Returns (limitedEvents 3, twoSized) fun result s =>
      result = .returned none ∧ s.2.storage.streamRecords "events" = [sizedEvent 101 [3, 4]] := by
  have hcount : RightCount (limitedEvents 3).name (limitedEvents 3).retentionMaxBytes twoSized.storage :=
    ⟨.inr (by decide), by decide⟩
  refine (@runRetention_longestSuffix_iff (limitedEvents 3) twoSized ⟨rfl, rfl⟩
    ⟨by decide, by decide⟩ twoSized_contiguous
    (by decide) rfl (by decide) 0 1 (by decide)).mono ?_
  rintro result s ⟨hresult, hleft⟩
  exact ⟨hresult, hleft.mpr hcount⟩

def oneByteAmong : Disk where
  present := true
  storage := { Storage.empty with
    streams := ⟨sizedEvents (fun i => if i = 50 then [1] else []) 101, sizedEvents_nodup _ (by decide)⟩ }
  faults := fun _ => none

theorem oneByteAmong_contiguous : oneByteAmong.storage.Contiguous "events" := by
  have hnumbers : (oneByteAmong.storage.streamRecords "events").map (·.seq.toNat) =
      List.range' 100 101 := by
    decide +kernel
  exact Storage.contiguous_of_numbers (by decide) hnumbers

/-- The byte is counted twice and is deleted with everything before it, although the whole
stream fits. -/
theorem runRetention_counts_twice :
    oneByteAmong.Sound ∧ oneByteAmong.storage.Contiguous "events" ∧
    (runRetention 0 2).Returns (limitedEvents 1, oneByteAmong) (fun result s =>
      result = .returned none ∧ (s.2.storage.streamRecords "events").length = 50) ∧
    (longestSuffix payloadBytes 1 (oneByteAmong.storage.streamRecords "events")).length = 101 := by
  have hsound : oneByteAmong.Sound := ⟨rfl, rfl⟩
  have hrounds : (oneByteAmong.storage.streamRecords (limitedEvents 1).name).length ≤ 100 * 2 := by
    decide +kernel
  have hleft : ((remaining (limitedEvents 1).name oneByteAmong.storage
      (scanOutcome (limitedEvents 1).retentionMaxBytes 0
        (readFrom (oneByteAmong.storage.streamRecords (limitedEvents 1).name)
          (oneByteAmong.storage.streamRecords (limitedEvents 1).name).length))).streamRecords
      "events").length = 50 := by
    decide +kernel
  have holdest : 100 ≤ oneByteAmong.storage.getOldestStreamSequence (limitedEvents 1).name := by
    decide +kernel
  have hcontiguous := oneByteAmong_contiguous
  refine ⟨hsound, hcontiguous, ?_, by decide +kernel⟩
  -- the call must not be evaluated at the events themselves
  generalize oneByteAmong = disk at hsound hrounds hleft holdest hcontiguous ⊢
  refine (@runRetention_remaining (limitedEvents 1) disk hsound hcontiguous holdest rfl (by decide) 0 2
    hrounds).mono ?_
  rintro result s ⟨hresult, hstorage⟩
  rw [hstorage]
  exact ⟨hresult, hleft⟩

end StreamQueue

end QwerQ
