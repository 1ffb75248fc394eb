import QwerQ.Stream.Retention
import QwerQ.Library.Suffix
import Mathlib.Algebra.BigOperators.Intervals
import Mathlib.Algebra.Order.BigOperators.Group.Finset

/-! Retention by size. The scan goes back from the newest message in batches of a hundred
and stops at the first message over the limit. Its positions go down by a hundred; below
the first hundred numbers the start of a batch wraps, and the last batch, which starts at
the oldest message, counts again what comes after its position. -/
namespace QwerQ
open Process UInt64

namespace StreamQueue
open Weighed

def payloadBytes (record : StreamRecord) : Int := record.msg.payload.length

theorem payloadBytes_nonneg (record : StreamRecord) : 0 ≤ payloadBytes record :=
  Int.natCast_nonneg _

/-- No message takes the sum of a scan from within the limit past an `int64`. -/
structure SumsFit (maxBytes : Int) (records : List StreamRecord) : Prop where
  limit : maxBytes < 2 ^ 63
  sizes : ∀ record ∈ records, maxBytes + payloadBytes record < 2 ^ 63

theorem SumsFit.of_subset {maxBytes : Int} {records part : List StreamRecord}
    (h : SumsFit maxBytes records) (hpart : part ⊆ records) : SumsFit maxBytes part :=
  ⟨h.limit, fun record hrecord => h.sizes record (hpart hrecord)⟩

section Batch
variable {maxBytes totalSize : Int} {records : List StreamRecord}

theorem overLimit_append (maxBytes totalSize : Int) (front back : List StreamRecord) :
    overLimit maxBytes (front ++ back) totalSize =
      match overLimit maxBytes front totalSize with
      | .error deleteUpTo => .error deleteUpTo
      | .ok totalSize => overLimit maxBytes back totalSize := by
  induction front generalizing totalSize with
  | nil => rfl
  | cons record rest ih =>
    rw [List.cons_append, overLimit, overLimit]
    by_cases hover : maxBytes < (totalSize + record.msg.payload.length).bmod (2 ^ 64)
    · simp only [if_pos hover]
    · simp only [if_neg hover, ih]

theorem overLimit_within (hlimit : maxBytes < 2 ^ 63) (hnonneg : 0 ≤ totalSize)
    (h : totalSize + total payloadBytes records ≤ maxBytes) :
    overLimit maxBytes records totalSize = .ok (totalSize + total payloadBytes records) := by
  induction records generalizing totalSize with
  | nil => simp [overLimit]
  | cons record rest ih =>
    have hrest := total_nonneg payloadBytes_nonneg rest
    rw [total_cons, ← Int.add_assoc] at h ⊢
    have hfirst : totalSize + record.msg.payload.length ≤ maxBytes :=
      Int.le_trans (Int.le_add_of_nonneg_right hrest) h
    have hsum : 0 ≤ totalSize + record.msg.payload.length := by omega
    rw [overLimit, size_bmod hsum (by omega)]
    simp only [if_neg (Int.not_lt.mpr hfirst)]
    exact ih hsum h

theorem overLimit_cut (hsums : SumsFit maxBytes records) (hnonneg : 0 ≤ totalSize)
    (hsize : totalSize ≤ maxBytes) (h : maxBytes < totalSize + total payloadBytes records) :
    ∃ older cut,
      records = older ++ cut :: longestSuffix payloadBytes (maxBytes - totalSize) records ∧
      overLimit maxBytes records.reverse totalSize = .error (cut.seq + 1) := by
  have ⟨older, cut, hsplit, hover⟩ :=
    longestSuffix_cut (Int.sub_left_lt_of_lt_add h) (Int.sub_nonneg.mpr hsize)
  refine ⟨older, cut, hsplit, ?_⟩
  let kept := longestSuffix payloadBytes (maxBytes - totalSize) records
  have hkept : totalSize + total payloadBytes kept.reverse ≤ maxBytes := by
    have hle : total payloadBytes kept ≤ maxBytes - totalSize :=
      total_longestSuffix_le (Int.sub_nonneg.mpr hsize)
    rw [total_reverse]
    omega
  have hreverse : records.reverse = kept.reverse ++ cut :: older.reverse := by
    conv_lhs => rw [hsplit]
    simp [kept]
  have hmem : cut ∈ records := hsplit ▸ List.mem_append_right _ List.mem_cons_self
  have hcut : maxBytes - totalSize < payloadBytes cut + total payloadBytes kept := hover
  have hkeptNonneg := total_nonneg payloadBytes_nonneg kept
  have hcutNonneg := payloadBytes_nonneg cut
  have hcutFits := hsums.sizes cut hmem
  rw [hreverse, overLimit_append, overLimit_within hsums.limit hnonneg hkept]
  rw [total_reverse] at hkept ⊢
  refine if_pos ?_
  change maxBytes < (totalSize + total payloadBytes kept + payloadBytes cut).bmod (2 ^ 64)
  rw [size_bmod (by omega) (by omega)]
  omega

end Batch

/-- One round over a storage that stays as it is: how the scan ends, or where it goes on. -/
def scanRound (s : Storage) (name : String) (oldest : UInt64) (maxBytes : Int)
    (place : UInt64 × Int) : Except Scanned (UInt64 × Int) :=
  let start := batchStart place.1 oldest
  if place.1 < oldest then .error .within
  else
    match overLimit maxBytes (s.loadStreamMessages name start retentionBatch).reverse place.2 with
    | .error deleteUpTo => .error (.over deleteUpTo)
    | .ok totalSize => if start ≤ oldest then .error .within else .ok (start - 1, totalSize)

def afterRounds (s : Storage) (name : String) (oldest : UInt64) (maxBytes : Int) :
    Nat → UInt64 × Int → Option (UInt64 × Int)
  | 0, place => some place
  | rounds + 1, place =>
      (afterRounds s name oldest maxBytes rounds place).bind fun place =>
        (scanRound s name oldest maxBytes place).toOption

def scanned (s : Storage) (name : String) (oldest : UInt64) (maxBytes : Int) :
    Nat → UInt64 × Int → Scanned
  | 0, _ => .scanning
  | rounds + 1, place =>
      match scanRound s name oldest maxBytes place with
      | .error outcome => outcome
      | .ok place => scanned s name oldest maxBytes rounds place

section Rounds
variable {s : Storage} {name : String} {oldest : UInt64} {maxBytes : Int} {sq : StreamQueue}
  {disk : Disk}

theorem scanSizes_run (hsound : disk.Sound) (rounds : Nat) (place : UInt64 × Int) :
    (scanSizes name oldest maxBytes rounds place.1 place.2).run (sq, disk) =
      (.ok (scanned disk.storage name oldest maxBytes rounds place), (sq, disk)) := by
  induction rounds generalizing place with
  | zero => rfl
  | succ rounds ih =>
    rw [scanSizes, scanned, scanRound]
    by_cases hend : place.1 < oldest
    · simp only [if_pos hend]
      rfl
    · simp only [if_neg hend, readStorage, step_bind, done_bind, run_step, hsound.read_eq]
      cases overLimit maxBytes (disk.storage.loadStreamMessages name (batchStart place.1 oldest)
          retentionBatch).reverse place.2 with
      | error deleteUpTo => rfl
      | ok totalSize =>
        by_cases hlast : batchStart place.1 oldest ≤ oldest
        · simp only [if_pos hlast]
          rfl
        · simp only [if_neg hlast]
          exact ih (batchStart place.1 oldest - 1, totalSize)

theorem scanRound_ne_scanning (place : UInt64 × Int) :
    scanRound s name oldest maxBytes place ≠ .error .scanning := by
  unfold scanRound
  dsimp only
  split
  · simp
  · split
    · simp
    · split <;> simp

theorem afterRounds_first (rounds : Nat) (place : UInt64 × Int) :
    afterRounds s name oldest maxBytes (rounds + 1) place =
      (scanRound s name oldest maxBytes place).toOption.bind
        (afterRounds s name oldest maxBytes rounds) := by
  induction rounds with
  | zero => simp [afterRounds]
  | succ rounds ih =>
    rw [afterRounds, ih, Option.bind_assoc]
    rfl

theorem scanned_scanning_iff (rounds : Nat) (place : UInt64 × Int) :
    scanned s name oldest maxBytes rounds place = .scanning ↔
      (afterRounds s name oldest maxBytes rounds place).isSome := by
  induction rounds generalizing place with
  | zero => simp [scanned, afterRounds]
  | succ rounds ih =>
    rw [afterRounds_first, scanned]
    cases hround : scanRound s name oldest maxBytes place with
    | error outcome =>
      have hne : outcome ≠ .scanning := fun h =>
        scanRound_ne_scanning place (hround.trans (congrArg Except.error h))
      exact iff_of_false hne Bool.false_ne_true
    | ok next => exact ih next

theorem expireBySize_run (hsound : disk.Sound) (holdest : 0 < disk.storage.getOldestStreamSequence name)
    (rounds : Nat) :
    (expireBySize name maxBytes rounds).run (sq, disk) =
      match scanned disk.storage name (disk.storage.getOldestStreamSequence name) maxBytes rounds
          (disk.storage.getStreamSequence name, 0) with
      | .within => (.ok (.returned none), (sq, disk))
      | .failed err => (.ok (.returned (some err)), (sq, disk))
      | .scanning => (.ok .scanning, (sq, disk))
      | .over deleteUpTo => (.ok (.returned none), (sq, if 0 < deleteUpTo then
          { disk with storage := disk.storage.deleteStreamMessagesBefore name deleteUpTo } else disk)) := by
  have hfirst : disk.storage.getOldestStreamSequence name ≠ 0 := fun h => by
    rw [h] at holdest
    exact UInt64.lt_irrefl 0 holdest
  have hscan : (scanSizes name (disk.storage.getOldestStreamSequence name) maxBytes rounds
      (disk.storage.getStreamSequence name) 0).run (sq, disk) = _ :=
    scanSizes_run hsound rounds (disk.storage.getStreamSequence name, 0)
  simp only [expireBySize, readStorage, step_bind, done_bind, run_step, hsound.read_eq, if_neg hfirst,
    run_bind, hscan]
  rcases scanned disk.storage name (disk.storage.getOldestStreamSequence name) maxBytes rounds
      (disk.storage.getStreamSequence name, 0) with _ | deleteUpTo | err | _
  · rfl
  · by_cases hpositive : 0 < deleteUpTo
    · simp only [if_pos hpositive, writeStorage, step_bind, done_bind, run_step, hsound.write_eq]
      rfl
    · simp only [if_neg hpositive]
      rfl
  · rfl
  · rfl

end Rounds

section Positions
variable {s : Storage} {name : String} {seq oldest : UInt64} {maxBytes totalSize : Int}

theorem batchStart_toNat (h : 99 ≤ seq.toNat) :
    (batchStart seq oldest).toNat = max (seq.toNat - 99) oldest.toNat := by
  have hseq := seq.toNat_lt
  rw [toNat_batchStart]
  omega

/-- Below the first hundred numbers the start wraps past the position. -/
theorem lt_batchStart (h : seq.toNat < 99) : seq < batchStart seq oldest := by
  rw [lt_iff_toNat_lt, toNat_batchStart]
  omega

theorem overLimit_ok {records : List StreamRecord} {totalSize' : Int}
    (hsums : SumsFit maxBytes records) (hnonneg : 0 ≤ totalSize) (hsize : totalSize ≤ maxBytes)
    (h : overLimit maxBytes records totalSize = .ok totalSize') :
    totalSize' = totalSize + total payloadBytes records ∧ totalSize' ≤ maxBytes := by
  by_cases hfits : totalSize + total payloadBytes records ≤ maxBytes
  · rw [overLimit_within hsums.limit hnonneg hfits] at h
    rw [← Except.ok.inj h]
    exact ⟨rfl, hfits⟩
  · have hover : maxBytes < totalSize + total payloadBytes records.reverse := by
      rw [total_reverse]
      exact Int.not_le.mp hfits
    have ⟨_, _, _, hcut⟩ := overLimit_cut (hsums.of_subset (List.reverse_subset.mpr (List.Subset.refl _)))
      hnonneg hsize hover
    rw [List.reverse_reverse, h] at hcut
    cases hcut

theorem loadStreamMessages_subset (start : UInt64) (limit : Nat) :
    s.loadStreamMessages name start limit ⊆ s.streamRecords name :=
  fun _ hrecord => (List.mem_filter.mp (List.mem_of_mem_take hrecord)).1

def bytesRead (s : Storage) (name : String) (newest : UInt64) (rounds : Nat) : Int :=
  ∑ round ∈ Finset.range rounds, total payloadBytes
    (s.loadStreamMessages name (UInt64.ofNat (newest.toNat - 100 * round - 99)) retentionBatch)

theorem bytesRead_nonneg (s : Storage) (name : String) (newest : UInt64) (rounds : Nat) :
    0 ≤ bytesRead s name newest rounds :=
  Finset.sum_nonneg fun _ _ => total_nonneg payloadBytes_nonneg _

theorem bytesRead_mono (s : Storage) (name : String) (newest : UInt64) {rounds later : Nat}
    (h : rounds ≤ later) : bytesRead s name newest rounds ≤ bytesRead s name newest later := by
  refine Finset.sum_le_sum_of_subset_of_nonneg (Finset.range_subset_range.mpr h) ?_
  intro round _ _
  exact total_nonneg payloadBytes_nonneg _

/-- The scan comes to a position below the first hundred numbers. -/
structure Wraps (name : String) (maxBytes : Int) (s : Storage) : Prop where
  low : (s.getStreamSequence name).toNat % 100 < 99
  stored : (s.getOldestStreamSequence name).toNat ≤ (s.getStreamSequence name).toNat % 100
  within : bytesRead s name (s.getStreamSequence name) ((s.getStreamSequence name).toNat / 100) ≤
    maxBytes

structure Descended (name : String) (maxBytes : Int) (s : Storage) (rounds : Nat)
    (place : UInt64 × Int) : Prop where
  position : place.1.toNat + 100 * rounds = (s.getStreamSequence name).toNat
  above : (s.getOldestStreamSequence name).toNat ≤ place.1.toNat
  size : place.2 = bytesRead s name (s.getStreamSequence name) rounds
  within : place.2 ≤ maxBytes

section Descent
variable {rounds : Nat} {place next : UInt64 × Int}

theorem Descended.nonneg (h : Descended name maxBytes s rounds place) : 0 ≤ place.2 :=
  h.size ▸ bytesRead_nonneg s name _ rounds

theorem Descended.wraps (h : Descended name maxBytes s rounds place) (hlow : place.1.toNat < 99) :
    Wraps name maxBytes s := by
  have hposition := h.position
  have hrounds : (s.getStreamSequence name).toNat / 100 = rounds := by omega
  have hplace : (s.getStreamSequence name).toNat % 100 = place.1.toNat := by omega
  exact ⟨hplace ▸ hlow, hplace ▸ h.above, hrounds ▸ h.size ▸ h.within⟩

theorem Descended.start (h : Descended name maxBytes s rounds place) (hhigh : 99 ≤ place.1.toNat)
    (hmore : (s.getOldestStreamSequence name).toNat < place.1.toNat - 99) :
    batchStart place.1 (s.getOldestStreamSequence name) =
      UInt64.ofNat ((s.getStreamSequence name).toNat - 100 * rounds - 99) := by
  have hposition := h.position
  have hstart : (batchStart place.1 (s.getOldestStreamSequence name)).toNat =
      (s.getStreamSequence name).toNat - 100 * rounds - 99 := by
    rw [batchStart_toNat hhigh]
    omega
  rw [← hstart, UInt64.ofNat_toNat]

theorem Descended.round (hsums : SumsFit maxBytes (s.streamRecords name))
    (h : Descended name maxBytes s rounds place) (hhigh : 99 ≤ place.1.toNat)
    (hround : scanRound s name (s.getOldestStreamSequence name) maxBytes place = .ok next) :
    Descended name maxBytes s (rounds + 1) next := by
  have hposition := h.position
  have hstart : (batchStart place.1 (s.getOldestStreamSequence name)).toNat = _ :=
    batchStart_toNat hhigh
  unfold scanRound at hround
  dsimp only at hround
  split at hround
  · cases hround
  · split at hround
    · cases hround
    · rename_i totalSize hlimit
      split at hround
      · cases hround
      · rename_i hmore
        cases hround
        have hmore := lt_iff_toNat_lt.mp (UInt64.not_le.mp hmore)
        have ⟨hsize, hwithin⟩ := overLimit_ok (hsums.of_subset (List.reverse_subset.mpr
          (loadStreamMessages_subset _ _))) h.nonneg h.within hlimit
        have hone : (1 : UInt64) ≤ batchStart place.1 (s.getOldestStreamSequence name) :=
          le_iff_toNat_le.mpr (by rw [toNat_one]; omega)
        have hnext : (batchStart place.1 (s.getOldestStreamSequence name) - 1).toNat =
            place.1.toNat - 100 := by
          rw [UInt64.toNat_sub_of_le _ _ hone, toNat_one]
          omega
        refine ⟨?_, ?_, ?_, hwithin⟩
        · rw [hnext]
          omega
        · rw [hnext]
          omega
        · rw [hsize, total_reverse, h.size, h.start hhigh (by omega), bytesRead, bytesRead,
            Finset.sum_range_succ]

theorem Descended.goes_on (hlimit : maxBytes < 2 ^ 63) (h : Descended name maxBytes s rounds place)
    (hwraps : Wraps name maxBytes s)
    (hrounds : rounds < (s.getStreamSequence name).toNat / 100) :
    ∃ next, scanRound s name (s.getOldestStreamSequence name) maxBytes place = .ok next := by
  have hposition := h.position
  have hstored := hwraps.stored
  have hhigh : 99 ≤ place.1.toNat := by omega
  have hstart : (batchStart place.1 (s.getOldestStreamSequence name)).toNat = _ :=
    batchStart_toNat hhigh
  have hbatch := h.start hhigh (by omega)
  have hfits : place.2 + total payloadBytes (s.loadStreamMessages name
      (batchStart place.1 (s.getOldestStreamSequence name)) retentionBatch).reverse ≤ maxBytes := by
    have hmono := bytesRead_mono s name (s.getStreamSequence name) hrounds
    rw [total_reverse, h.size, hbatch]
    rw [bytesRead, Finset.sum_range_succ] at hmono
    exact Int.le_trans hmono hwraps.within
  have hinside : ¬place.1 < s.getOldestStreamSequence name := by
    rw [lt_iff_toNat_lt]
    omega
  have hmore : ¬batchStart place.1 (s.getOldestStreamSequence name) ≤
      s.getOldestStreamSequence name := by
    rw [le_iff_toNat_le]
    omega
  unfold scanRound
  simp only [if_neg hinside, overLimit_within hlimit h.nonneg hfits, if_neg hmore]
  exact ⟨_, rfl⟩

end Descent

section Prompt
variable {disk : Disk} {sq : StreamQueue}

theorem oldest_le_newest (holdest : 0 < s.getOldestStreamSequence name) :
    s.getOldestStreamSequence name ≤ s.getStreamSequence name := by
  have hstored : s.streamRecords name ≠ [] := fun hempty => by
    rw [Storage.getOldestStreamSequence, hempty] at holdest
    exact UInt64.lt_irrefl 0 holdest
  obtain ⟨record, hrecord, hseq⟩ := Storage.getOldestStreamSequence_stored hstored
  exact hseq ▸ Storage.le_getStreamSequence hrecord

theorem descended_start (holdest : 0 < s.getOldestStreamSequence name) (hbytes : 0 < maxBytes) :
    Descended name maxBytes s 0 (s.getStreamSequence name, 0) :=
  ⟨rfl, le_iff_toNat_le.mp (oldest_le_newest holdest), rfl, Int.le_of_lt hbytes⟩

theorem descended_of_not_wraps (hsums : SumsFit maxBytes (s.streamRecords name)) (holdest : 0 < s.getOldestStreamSequence name) (hbytes : 0 < maxBytes)
    (hno : ¬Wraps name maxBytes s) {rounds : Nat} {place : UInt64 × Int}
    (h : afterRounds s name (s.getOldestStreamSequence name) maxBytes rounds
      (s.getStreamSequence name, 0) = some place) : Descended name maxBytes s rounds place := by
  induction rounds generalizing place with
  | zero =>
    cases h
    exact descended_start holdest hbytes
  | succ rounds ih =>
    rw [afterRounds, Option.bind_eq_some_iff] at h
    have ⟨before, hbefore, hround⟩ := h
    have hdescended := ih hbefore
    refine hdescended.round hsums (Nat.not_lt.mp fun hlow => hno (hdescended.wraps hlow)) ?_
    cases hscan : scanRound s name (s.getOldestStreamSequence name) maxBytes before with
    | error outcome =>
      rw [hscan] at hround
      cases hround
    | ok next =>
      rw [hscan] at hround
      exact congrArg Except.ok (Option.some.inj hround)

theorem descended_of_wraps (hsums : SumsFit maxBytes (s.streamRecords name)) (holdest : 0 < s.getOldestStreamSequence name) (hbytes : 0 < maxBytes)
    (hwraps : Wraps name maxBytes s) {rounds : Nat}
    (hrounds : rounds ≤ (s.getStreamSequence name).toNat / 100) :
    ∃ place, afterRounds s name (s.getOldestStreamSequence name) maxBytes rounds
      (s.getStreamSequence name, 0) = some place ∧ Descended name maxBytes s rounds place := by
  induction rounds with
  | zero => exact ⟨_, rfl, descended_start holdest hbytes⟩
  | succ rounds ih =>
    have ⟨place, hplace, hdescended⟩ := ih (by omega)
    have ⟨next, hnext⟩ := hdescended.goes_on hsums.limit hwraps hrounds
    have hposition := hdescended.position
    refine ⟨next, ?_, hdescended.round hsums (by omega) hnext⟩
    rw [afterRounds, hplace, Option.bind_some, hnext]
    rfl

/-- No batch starts above its position, and the scan ends within as many rounds as there
are hundreds of numbers. -/
structure Prompt (name : String) (maxBytes : Int) (disk : Disk) : Prop where
  starts : ∀ rounds place, afterRounds disk.storage name
    (disk.storage.getOldestStreamSequence name) maxBytes rounds
      (disk.storage.getStreamSequence name, 0) = some place →
    batchStart place.1 (disk.storage.getOldestStreamSequence name) ≤ place.1
  ends : ∀ sq, (expireBySize name maxBytes (((disk.storage.getStreamSequence name).toNat -
      (disk.storage.getOldestStreamSequence name).toNat + 100) / 100)).Returns (sq, disk)
    fun result _ => result ≠ .scanning

/-- The scan is prompt exactly if it stays above the first hundred numbers: the position
that it would come to there is below the oldest number or is ninety-nine, or the messages
before it are over the limit. -/
theorem expireBySize_prompt_iff (hsound : disk.Sound)
    (hsums : SumsFit maxBytes (disk.storage.streamRecords name))
    (holdest : 0 < disk.storage.getOldestStreamSequence name) (hbytes : 0 < maxBytes) :
    Prompt name maxBytes disk ↔ ¬Wraps name maxBytes disk.storage := by
  constructor
  · intro hprompt hwraps
    obtain ⟨place, hplace, hdescended⟩ := descended_of_wraps hsums holdest hbytes hwraps (Nat.le_refl _)
    have hposition := hdescended.position
    have hlow := hwraps.low
    have hstart := hprompt.starts _ _ hplace
    exact UInt64.not_lt.mpr hstart (lt_batchStart (by omega))
  · intro hno
    refine ⟨fun rounds place hplace => ?_, fun sq => ?_⟩
    · have hdescended := descended_of_not_wraps hsums holdest hbytes hno hplace
      have hhigh : 99 ≤ place.1.toNat := Nat.not_lt.mp fun hlow => hno (hdescended.wraps hlow)
      have habove := hdescended.above
      rw [UInt64.le_iff_toNat_le, batchStart_toNat hhigh]
      omega
    · rw [Returns, expireBySize_run hsound holdest]
      have hended : scanned disk.storage name (disk.storage.getOldestStreamSequence name) maxBytes
          (((disk.storage.getStreamSequence name).toNat -
            (disk.storage.getOldestStreamSequence name).toNat + 100) / 100)
          (disk.storage.getStreamSequence name, 0) ≠ .scanning := by
        rw [Ne, scanned_scanning_iff, Option.isSome_iff_exists]
        rintro ⟨place, hplace⟩
        have hdescended := descended_of_not_wraps hsums holdest hbytes hno hplace
        have hposition := hdescended.position
        have habove := hdescended.above
        omega
      generalize scanned disk.storage name _ maxBytes _ _ = outcome at hended ⊢
      rcases outcome with _ | deleteUpTo | err | _
      · rintro ⟨⟩
      · rintro ⟨⟩
      · rintro ⟨⟩
      · exact absurd rfl hended

end Prompt

end Positions

def sizedEvent (seq : UInt64) (payload : List UInt8) : StreamRecord :=
  ⟨"events", seq, ⟨"a", "events", payload, ∅, 0, 0, 0, "", seq⟩⟩

def sizedEvents (payload : Nat → List UInt8) (count : Nat) : List StreamRecord :=
  (List.range count).map fun i => sizedEvent (UInt64.ofNat (100 + i)) (payload i)

theorem sizedEvents_nodup (payload : Nat → List UInt8) {count : Nat} (h : count < 1000) :
    ((sizedEvents payload count).map fun record => (record.queue, record.seq)).Nodup := by
  rw [sizedEvents, List.map_map]
  refine List.nodup_range.map_on fun i hi j hj hkey => ?_
  have hseq := congrArg UInt64.toNat (Prod.ext_iff.mp hkey).2
  simp only [Function.comp_apply, sizedEvent, toNat_ofNat'] at hseq
  rw [List.mem_range] at hi hj
  omega

def twoHundred : Disk where
  present := true
  storage := { Storage.empty with
    streams := ⟨sizedEvents (fun _ => [1]) 200, sizedEvents_nodup _ (by decide)⟩ }
  faults := fun _ => none

/-- Both batches are read: the newest number is 299. -/
theorem expireBySize_prompt_twoHundred : Prompt "events" 300 twoHundred := by
  have hsums : SumsFit 300 (twoHundred.storage.streamRecords "events") :=
    ⟨by decide, by decide +kernel⟩
  refine (expireBySize_prompt_iff ⟨rfl, rfl⟩ hsums (by decide +kernel) (by decide)).mpr fun hwraps => ?_
  exact absurd hwraps.low (by decide +kernel)

def loneEvent (seq : UInt64) : Disk where
  present := true
  storage := Storage.empty.saveStreamMessage "events" seq (sizedEvent seq [1]).msg
  faults := fun _ => none

/-- The first batch of a stream's first event starts far above it, and the scan goes on. -/
theorem expireBySize_wraps_first :
    (loneEvent 1).Sound ∧ SumsFit 10 ((loneEvent 1).storage.streamRecords "events") ∧
    0 < (loneEvent 1).storage.getOldestStreamSequence "events" ∧
    ((loneEvent 1).storage.getStreamSequence "events").toNat = 1 ∧
    (batchStart 1 1).toNat = 2 ^ 64 - 98 ∧
    (expireBySize "events" 10 1).Returns (⟨"events", 1, [], 0, 10, 0⟩, loneEvent 1)
      (fun result _ => result = .scanning) ∧
    ¬Prompt "events" 10 (loneEvent 1) := by
  refine ⟨⟨rfl, rfl⟩, ⟨by decide, by decide⟩, by decide, by decide, by decide, rfl, fun hprompt => ?_⟩
  exact absurd (hprompt.starts 0 (1, 0) rfl) (by decide)

end StreamQueue

end QwerQ
