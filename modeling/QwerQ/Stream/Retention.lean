import QwerQ.Stream.Records
import QwerQ.Library.Process

/-! Retention of a stream. `RunRetention` holds the stream's lock only while it reads
its settings, so that each of its calls to the storage is a step of its own. The scan for
the size goes back from the newest message in batches; the start of a batch is computed
in 64 bits without a sign and wraps below the first hundred messages. -/
namespace QwerQ
open List Process UInt64

abbrev StreamProg := Process Unit (StreamQueue × Disk) Empty

namespace StreamQueue

def readStorage (view : Storage → α) : StreamProg (Except Err α) :=
  .step (fun _ => ()) (fun s => (s.1, (s.2.read view).2)) fun s => .done (s.2.read view).1

def writeStorage (change : Storage → Storage) : StreamProg (Option Err) :=
  .step (fun _ => ()) (fun s => (s.1, (s.2.write change).2)) fun s => .done (s.2.write change).1

variable {s : StreamQueue × Disk} {name : String}

theorem returns_readStorage {view : Storage → α}
    {post : Except Err α → StreamQueue × Disk → Prop} :
    (readStorage view).Returns s post ↔ post (s.2.read view).1 (s.1, (s.2.read view).2) := Iff.rfl

theorem returns_writeStorage {change : Storage → Storage}
    {post : Option Err → StreamQueue × Disk → Prop} :
    (writeStorage change).Returns s post ↔ post (s.2.write change).1 (s.1, (s.2.write change).2) :=
  Iff.rfl

def retentionBatch : Nat := 100

/-- The messages of a batch from the newest on: the number after the first one that is
over the limit, or else the size so far, which is an `int64`. -/
def overLimit (maxBytes : Int) : List StreamRecord → Int → Except UInt64 Int
  | [], totalSize => .ok totalSize
  | record :: rest, totalSize =>
      let totalSize := (totalSize + record.msg.payload.length).bmod (2 ^ 64)
      if maxBytes < totalSize then .error (record.seq + 1) else overLimit maxBytes rest totalSize

theorem size_bmod {size : Int} (hnonneg : 0 ≤ size) (h : size < 2 ^ 63) : size.bmod (2 ^ 64) = size :=
  Int.bmod_eq_of_le (by omega) (by omega)

def batchStart (seq oldest : UInt64) : UInt64 :=
  let start := seq - UInt64.ofNat retentionBatch + 1
  if start < oldest then oldest else start

inductive Scanned where
  | within
  | over (deleteUpTo : UInt64)
  | failed (err : Err)
  | scanning

def scanSizes (name : String) (oldest : UInt64) (maxBytes : Int) :
    Nat → UInt64 → Int → StreamProg Scanned
  | 0, _, _ => return .scanning
  | rounds + 1, seq, totalSize =>
      if seq < oldest then return .within
      else do
        let start := batchStart seq oldest
        match ← readStorage (Storage.loadStreamMessages name start retentionBatch) with
        | .error err => return .failed err
        | .ok msgs =>
            match overLimit maxBytes msgs.reverse totalSize with
            | .error deleteUpTo => return .over deleteUpTo
            | .ok totalSize =>
                if start ≤ oldest then return .within
                else scanSizes name oldest maxBytes rounds (start - 1) totalSize

/-- What a call has come to: it returned, or it is still in its loop. -/
inductive Retention where
  | returned (err : Option Err)
  | scanning

def expireByAge (name : String) (maxAge : Duration) (now : Time) : StreamProg (Option Err) := do
  if 0 < maxAge then
    match ← readStorage (Storage.getStreamMessageByTimestamp name (unixMilli (now - maxAge))) with
    | .error err => return some err
    | .ok seq =>
        if 0 < seq then writeStorage (Storage.deleteStreamMessagesBefore name seq) else return none
  else return none

def expireBySize (name : String) (maxBytes : Int) (rounds : Nat) : StreamProg Retention := do
  match ← readStorage (Storage.getOldestStreamSequence name) with
  | .error err => return .returned (some err)
  | .ok oldest =>
      match ← readStorage (Storage.getStreamSequence name) with
      | .error err => return .returned (some err)
      | .ok newest =>
          if oldest = 0 then return .returned none
          else
            match ← scanSizes name oldest maxBytes rounds newest 0 with
            | .within => return .returned none
            | .failed err => return .returned (some err)
            | .scanning => return .scanning
            | .over deleteUpTo =>
                if 0 < deleteUpTo then
                  return .returned (← writeStorage (Storage.deleteStreamMessagesBefore name deleteUpTo))
                else return .returned none

def runRetention (now : Time) (rounds : Nat) : StreamProg Retention := do
  let (sq, present) ← .step (fun _ => ()) (fun s => s) fun s => .done (s.1, s.2.present)
  if present = false ∨ sq.retentionMaxAge = 0 ∧ sq.retentionMaxBytes = 0 then return .returned none
  else
    match ← expireByAge sq.name sq.retentionMaxAge now with
    | some err => return .returned (some err)
    | none =>
        if 0 < sq.retentionMaxBytes then expireBySize sq.name sq.retentionMaxBytes rounds
        else return .returned none

def SameStream (s : StreamQueue × Disk) (_ : Unit) (s' : StreamQueue × Disk) : Prop :=
  s'.1 = s.1 ∧ s'.2.present = s.2.present

theorem readStorage_sameStream (view : Storage → α) : (readStorage view).Every SameStream := by
  refine fun s => ⟨⟨rfl, ?_⟩, trivial⟩
  change (s.2.read view).2.present = s.2.present
  rw [Disk.read_disk]
  rfl

theorem writeStorage_sameStream (change : Storage → Storage) :
    (writeStorage change).Every SameStream :=
  fun s => ⟨⟨rfl, Disk.write_disk_present change s.2⟩, trivial⟩

theorem scanSizes_sameStream (name : String) (oldest : UInt64) (maxBytes : Int) (rounds : Nat)
    (seq : UInt64) (totalSize : Int) :
    (scanSizes name oldest maxBytes rounds seq totalSize).Every SameStream := by
  induction rounds generalizing seq totalSize with
  | zero => trivial
  | succ rounds ih =>
    rw [scanSizes]
    split
    · trivial
    · refine (readStorage_sameStream _).bind fun result => ?_
      cases result with
      | error err => trivial
      | ok msgs =>
        dsimp only
        split
        · trivial
        · split
          · trivial
          · exact ih _ _

theorem expireByAge_sameStream (name : String) (maxAge : Duration) (now : Time) :
    (expireByAge name maxAge now).Every SameStream := by
  rw [expireByAge]
  split
  · refine (readStorage_sameStream _).bind fun result => ?_
    cases result with
    | error err => trivial
    | ok seq =>
      dsimp only
      split
      · exact writeStorage_sameStream _
      · trivial
  · trivial

theorem expireBySize_sameStream (name : String) (maxBytes : Int) (rounds : Nat) :
    (expireBySize name maxBytes rounds).Every SameStream := by
  rw [expireBySize]
  refine (readStorage_sameStream _).bind fun result => ?_
  cases result with
  | error err => trivial
  | ok oldest =>
    refine (readStorage_sameStream _).bind fun result => ?_
    cases result with
    | error err => trivial
    | ok newest =>
      dsimp only
      split
      · trivial
      · refine (scanSizes_sameStream ..).bind fun scanned => ?_
        rcases scanned with _ | deleteUpTo | _ | _
        · trivial
        · dsimp only
          split
          · exact (writeStorage_sameStream _).bind fun _ => trivial
          · trivial
        · trivial
        · trivial

theorem runRetention_sameStream (now : Time) (rounds : Nat) :
    (runRetention now rounds).Every SameStream := by
  refine fun s => ⟨⟨rfl, rfl⟩, ?_⟩
  change Every SameStream (if s.2.present = false ∨ _ then _ else _)
  split
  · trivial
  · refine (expireByAge_sameStream ..).bind fun refused => ?_
    cases refused with
    | some err => trivial
    | none =>
      dsimp only
      split
      · exact expireBySize_sameStream _ _ _
      · trivial

/-- The highest stored number has not fallen, and a stream without a limit for its size
has none yet. -/
structure Rises (name : String) (s s' : StreamQueue × Disk) : Prop where
  named : s.1.name = name → s'.1.name = name
  present : s.2.present = true → s'.2.present = true
  unlimited : s.1.retentionMaxBytes ≤ 0 → s'.1.retentionMaxBytes ≤ 0
  highest : s.2.storage.getStreamSequence name ≤ s'.2.storage.getStreamSequence name

theorem Rises.refl (name : String) (s : StreamQueue × Disk) : Rises name s s :=
  ⟨id, id, id, UInt64.le_refl _⟩

theorem Rises.trans {a b c : StreamQueue × Disk} (hab : Rises name a b)
    (hbc : Rises name b c) : Rises name a c :=
  ⟨hbc.named ∘ hab.named, hbc.present ∘ hab.present, hbc.unlimited ∘ hab.unlimited,
    UInt64.le_trans hab.highest hbc.highest⟩

theorem Rises.read (view : Storage → α) (s : StreamQueue × Disk) :
    Rises name s (s.1, (s.2.read view).2) := by
  rw [Disk.read_disk]
  exact ⟨id, id, id, UInt64.le_refl _⟩

theorem Rises.write {change : Storage → Storage}
    (h : s.2.storage.getStreamSequence name ≤ (change s.2.storage).getStreamSequence name) :
    Rises name s (s.1, (s.2.write change).2) := by
  let keeps (after : Storage) : Prop :=
    s.2.storage.getStreamSequence name ≤ after.getStreamSequence name
  have hkept : keeps (s.2.write change).2.storage :=
    Disk.write_keeps change (UInt64.le_refl (s.2.storage.getStreamSequence name)) h
  exact ⟨id, (Disk.write_disk_present change s.2).trans, id, hkept⟩

/-- The message found by its time stays, and with it the newest. -/
theorem expireByAge_rises (name : String) (maxAge : Duration) (now : Time) (s : StreamQueue × Disk) :
    (expireByAge name maxAge now).Keeps (Rises name) (fun _ _ => True) s := by
  rw [expireByAge]
  split
  · refine Keeps.bind (Rises.refl name) fun found _ => ⟨Rises.read _ found, fun later hlater => ?_⟩
    cases hread : (found.2.read (Storage.getStreamMessageByTimestamp name
        (unixMilli (now - maxAge)))).1 with
    | error err => exact fun _ _ => trivial
    | ok seq =>
      dsimp only
      split
      · refine fun after hafter => ⟨Rises.write ?_, fun _ _ => trivial⟩
        refine Storage.getStreamSequence_deleteStreamMessagesBefore ?_
        rw [Disk.read_ok hread]
        have hrises := ((Rises.read _ found).trans hlater).trans hafter
        exact UInt64.le_trans (Storage.getStreamMessageByTimestamp_le _ _) hrises.highest
      · exact fun _ _ => trivial
  · exact fun _ _ => trivial

theorem runRetention_rises (now : Time) (rounds : Nat)
    (hname : s.1.name = name) (hunlimited : s.1.retentionMaxBytes ≤ 0) :
    (runRetention now rounds).Keeps (Rises name) (fun _ _ => True) s := by
  refine fun s' hle => ⟨Rises.refl name s', ?_⟩
  change Keeps (Rises name) _ (if s'.2.present = false ∨ _ then _ else _) s'
  split
  · exact fun _ _ => trivial
  · refine Keeps.bind (Rises.refl name) ?_
    rw [hle.named hname]
    refine (expireByAge_rises name s'.1.retentionMaxAge now s').mono fun refused later _ => ?_
    cases refused with
    | some err => exact fun _ _ => trivial
    | none =>
      have hno : ¬ 0 < s'.1.retentionMaxBytes := Int.not_lt.mpr (hle.unlimited hunlimited)
      change Keeps (Rises name) _ (if 0 < s'.1.retentionMaxBytes then _ else _) later
      rw [if_neg hno]
      exact fun _ _ => trivial

theorem toNat_batchStart (seq oldest : UInt64) :
    (batchStart seq oldest).toNat = max ((seq.toNat + 2 ^ 64 - 99) % 2 ^ 64) oldest.toNat := by
  have hbatch : (UInt64.ofNat retentionBatch).toNat = 100 := rfl
  have hseq := seq.toNat_lt
  have hstart : (seq - UInt64.ofNat retentionBatch + 1).toNat =
      (seq.toNat + 2 ^ 64 - 99) % 2 ^ 64 := by
    simp only [UInt64.toNat_add, UInt64.toNat_sub, toNat_one, hbatch]
    omega
  simp only [batchStart]
  split
  · rename_i hbefore
    have hbefore := lt_iff_toNat_lt.mp hbefore
    omega
  · rename_i hbefore
    have hbefore := le_iff_toNat_le.mp (UInt64.not_lt.mp hbefore)
    omega

section Newest
variable {storage : Storage} {record : StreamRecord}
  (hmem : record ∈ storage.streamRecords name)
  (hnewest : record.seq = storage.getStreamSequence name)
include hnewest

include hmem in
theorem streamRecords_newest : ∃ older, storage.streamRecords name = older ++ [record] := by
  have ⟨older, newer, hsplit⟩ := append_of_mem hmem
  have hincreasing := storage.streamRecords_increasing name
  rw [hsplit, pairwise_append, pairwise_cons] at hincreasing
  cases newer with
  | nil => exact ⟨older, hsplit⟩
  | cons next rest =>
    have hlater : record.seq < next.seq := hincreasing.2.1.1 next mem_cons_self
    have hle : next.seq ≤ record.seq := by
      rw [hnewest]
      exact Storage.le_getStreamSequence (by rw [hsplit]; simp)
    exact absurd hle (UInt64.not_le.mpr hlater)

theorem newest_batch_length (oldest : UInt64) :
    ((storage.streamRecords name).filter fun other => batchStart record.seq oldest ≤ other.seq).length ≤
      retentionBatch := by
  let batch := (storage.streamRecords name).filter fun other => batchStart record.seq oldest ≤ other.seq
  let place (other : StreamRecord) : Nat := record.seq.toNat - other.seq.toNat
  have hbounds (other : StreamRecord) (hother : other ∈ batch) :
      other.seq.toNat ≤ record.seq.toNat ∧ record.seq.toNat ≤ other.seq.toNat + 99 := by
    have ⟨hstored, hstart⟩ := mem_filter.mp hother
    have hle := le_iff_toNat_le.mp (hnewest ▸ Storage.le_getStreamSequence hstored)
    have hstart := le_iff_toNat_le.mp (of_decide_eq_true hstart)
    have hstart := toNat_batchStart record.seq oldest
    have hseq := record.seq.toNat_lt
    omega
  have hnodup : (batch.map place).Nodup := by
    rw [List.Nodup, pairwise_map]
    refine ((storage.streamRecords_increasing name).filter _).imp_of_mem ?_
    intro left right hleft hright hlt
    have hl := hbounds left hleft
    have hr := hbounds right hright
    have hlt := lt_iff_toNat_lt.mp hlt
    simp only [place]
    omega
  have hrange : batch.map place ⊆ List.range retentionBatch := by
    intro n hn
    have ⟨other, hother, hplace⟩ := mem_map.mp hn
    have ho := hbounds other hother
    rw [mem_range, ← hplace]
    simp only [place, retentionBatch]
    omega
  have hlength := (subperm_of_subset hnodup hrange).length_le
  rwa [length_map, length_range] at hlength

include hmem in
theorem loadStreamMessages_newest {oldest : UInt64} (holdest : oldest ≤ record.seq)
    (hwraps : UInt64.ofNat retentionBatch ≤ record.seq + 1) :
    ∃ older, (storage.loadStreamMessages name (batchStart record.seq oldest) retentionBatch).reverse =
      record :: older := by
  have hlength := newest_batch_length hnewest oldest
  have ⟨older, hsplit⟩ := streamRecords_newest hmem hnewest
  have hstart : batchStart record.seq oldest ≤ record.seq := by
    have hbatch : UInt64.ofNat retentionBatch = 100 := rfl
    rw [hbatch] at hwraps
    rw [batchStart, hbatch]
    grind
  refine ⟨(older.filter fun other => batchStart record.seq oldest ≤ other.seq).reverse, ?_⟩
  rw [Storage.loadStreamMessages, take_of_length_le hlength, hsplit, filter_append,
    filter_cons_of_pos (by simpa using hstart)]
  simp

end Newest

/-- A message that is over the limit alone is deleted, and all before it: of a stream
whose newest message is so large nothing is left. -/
theorem expireBySize_empties {sq : StreamQueue} {disk : Disk} {record : StreamRecord}
    {maxBytes : Int} (rounds : Nat) (hsound : disk.Sound) (hmem : record ∈ disk.storage.streamRecords name)
    (hnewest : record.seq = disk.storage.getStreamSequence name)
    (hwraps : UInt64.ofNat retentionBatch ≤ record.seq + 1)
    (hlarge : maxBytes < record.msg.payload.length) (hlength : record.msg.payload.length < 2 ^ 63)
    (hfirst : disk.storage.getOldestStreamSequence name ≠ 0) :
    (expireBySize name maxBytes (rounds + 1)).run (sq, disk) = (.ok (.returned none),
      (sq, { disk with
        storage := disk.storage.deleteStreamMessagesBefore name (record.seq + 1) })) := by
  have holdest := Storage.getOldestStreamSequence_le hmem
  have ⟨older, hbatch⟩ := loadStreamMessages_newest hmem hnewest holdest hwraps
  have hover : overLimit maxBytes (record :: older) 0 = .error (record.seq + 1) := by
    rw [overLimit, Int.zero_add, size_bmod (Int.natCast_nonneg _) (by omega), if_pos hlarge]
  have hscan : (scanSizes name (disk.storage.getOldestStreamSequence name) maxBytes (rounds + 1)
      record.seq 0).run (sq, disk) = (.ok (.over (record.seq + 1)), (sq, disk)) := by
    rw [scanSizes, if_neg (UInt64.not_lt.mpr holdest)]
    simp only [readStorage, step_bind, done_bind, run_step, hsound.read_eq, hbatch, hover]
    rfl
  have hpositive : 0 < record.seq + 1 :=
    UInt64.lt_of_lt_of_le (show 0 < UInt64.ofNat retentionBatch by decide) hwraps
  simp only [expireBySize, readStorage, step_bind, done_bind, run_step, hsound.read_eq, ← hnewest, if_neg hfirst,
    run_bind, hscan, if_pos hpositive, writeStorage, hsound.write_eq]
  rfl

theorem runRetention_bySize {sq : StreamQueue} {disk : Disk} (now : Time) (rounds : Nat)
    (hpresent : disk.present = true) (hage : sq.retentionMaxAge = 0) (hbytes : 0 < sq.retentionMaxBytes) :
    (runRetention now rounds).run (sq, disk) =
      (expireBySize sq.name sq.retentionMaxBytes rounds).run (sq, disk) := by
  have hrun : ¬ (disk.present = false ∨ sq.retentionMaxAge = 0 ∧ sq.retentionMaxBytes = 0) := by
    rintro (hmissing | ⟨_, hzero⟩)
    · exact Bool.false_ne_true (hmissing.symm.trans hpresent)
    · exact hbytes.ne' hzero
  have hage' : ¬ 0 < sq.retentionMaxAge := by
    rw [hage]
    exact Int.lt_irrefl 0
  simp only [runRetention, step_bind, done_bind, run_step, if_neg hrun, expireByAge, if_neg hage',
    pure_eq, if_pos hbytes]

end StreamQueue

end QwerQ
