import QwerQ.Badger.Isolation
import QwerQ.Library.Digits

/-! A stream in the store is a map from sequence numbers to messages, sorted by number: the
keys pad the numbers with zeros, so that the order of the keys is the order of the numbers. -/
namespace QwerQ.Badger
open List OrderedStore

instance instLinearOrderUInt64 : LinearOrder UInt64 where
  le_refl := UInt64.le_refl
  le_trans _ _ _ := UInt64.le_trans
  le_antisymm _ _ := UInt64.le_antisymm
  le_total := UInt64.le_total
  lt_iff_le_not_ge a b := by
    rw [UInt64.le_iff_toNat_le, UInt64.le_iff_toNat_le, UInt64.lt_iff_toNat_lt]
    omega
  toDecidableLE := inferInstance

def digit (d : Fin 10) : UInt8 := UInt8.ofNat (48 + d)

theorem digit_strictMono : StrictMono digit := by
  intro a b
  revert a b
  decide

theorem padded_eq (seq : UInt64) : padded seq = Digits.text digit 20 seq.toNat := by
  rw [Digits.text_eq_map]
  rfl

theorem toNat_lt_pow (seq : UInt64) : seq.toNat < 10 ^ 20 :=
  seq.toNat_lt.trans (by decide)

theorem padded_strictMono : StrictMono padded := by
  intro a b hlt
  rw [padded_eq, padded_eq, Digits.text_lt_iff digit_strictMono (toNat_lt_pow a) (toNat_lt_pow b)]
  exact hlt

theorem streamKey_strictMono (queue : Bytes) : StrictMono (streamKey queue) := fun _ _ hlt =>
  (append_lt_append_iff _).mpr (padded_strictMono hlt)

theorem lt_colon_of_mem_padded {seq : UInt64} {byte : UInt8} (h : byte ∈ padded seq) : byte < colon := by
  have hdigit : ∀ d : Fin 10, digit d < colon := by decide
  rw [padded_eq, Digits.text_eq_digits] at h
  obtain ⟨d, -, rfl⟩ := mem_map.mp h
  exact hdigit d

/-- Only a name that starts with the queue's and a colon has keys under the queue's name: no
digit is a colon. -/
theorem isPrefix_of_streamKey {queue name : Bytes} {seq : UInt64} (hne : name ≠ queue)
    (h : keyspace streamPrefix queue <+: streamKey name seq) : queue ++ [colon] <+: name := by
  simp only [streamKey, keyspace, append_assoc] at h
  rw [prefix_append_right_inj] at h
  have hname : name ++ [colon] <+: name ++ ([colon] ++ padded seq) :=
    (prefix_append_right_inj name).mpr (prefix_append _ _)
  rcases prefix_or_prefix_of_prefix h hname with hshort | hlong
  · exact overlaps_of_isPrefix hne.symm hshort
  · obtain ⟨rest, rfl⟩ := overlaps_of_isPrefix hne hlong
    simp only [append_assoc, prefix_append_right_inj] at h
    have hmem : colon ∈ padded seq := h.subset (mem_append_right _ (mem_singleton_self colon))
    exact absurd (lt_colon_of_mem_padded hmem) (lt_irrefl colon)

abbrev StreamMap := OrderedStore UInt64 StreamMessage

namespace StreamMap

def sequences (m : StreamMap) : List UInt64 := m.entries.map Prod.fst

def load (fromSeq : UInt64) (limit : Int) (m : StreamMap) : List StreamMessage :=
  ((m.entries.filter fun entry => fromSeq ≤ entry.1).take limit.toNat).map Prod.snd

def since (seq : UInt64) (m : StreamMap) : StreamMap := m.keep fun n => seq ≤ n

def firstAt (timestampMs : Int) (m : StreamMap) : Option (UInt64 × StreamMessage) :=
  m.entries.find? fun entry => unixEpoch + timestampMs * 1000000 ≤ entry.2.message.publishedAt

end StreamMap

def ReadsNumbers (scan : Bytes → Except String UInt64) : Prop :=
  ∀ digits : List (Fin 10), digits ≠ [] → Digits.value digits < 2 ^ 64 →
    scan (digits.map digit) = .ok (UInt64.ofNat (Digits.value digits))

theorem ReadsNumbers.padded {scan : Bytes → Except String UInt64} (h : ReadsNumbers scan)
    (seq : UInt64) : scan (padded seq) = .ok seq := by
  have hvalue : Digits.value (Digits.digits 10 20 seq.toNat) = seq.toNat :=
    Digits.value_digits (toNat_lt_pow seq)
  have hlt : Digits.value (Digits.digits 10 20 seq.toNat) < 2 ^ 64 := by
    rw [hvalue]
    exact seq.toNat_lt
  have hnumber := h (Digits.digits 10 20 seq.toNat) nofun hlt
  rw [hvalue, UInt64.ofNat_toNat] at hnumber
  rw [padded_eq, Digits.text_eq_digits]
  exact hnumber

/-- What is written can be read. What is read need not be the message that was written:
JSON replaces text that is not UTF-8. -/
structure Formats.Lawful (formats : Formats) : Prop where
  stream : ∀ msg data, formats.marshalStream msg = .ok data →
    ∃ kept, formats.unmarshalStream data = .ok kept
  number : ReadsNumbers formats.scanNumber

/-- The keys under the queue's name are those of the map, and their values read as its messages. -/
def Represents (formats : Formats) (queue : Bytes) (db : Db) (m : StreamMap) : Prop :=
  Shows (streamKey queue) formats.unmarshalStream Except.ok (db.inside (keyspace streamPrefix queue)) m

section Changes
variable {formats : Formats} {queue : Bytes} {db : Db} {m : StreamMap}

theorem Represents.set (h : Represents formats queue db m) (seq : UInt64) {data : Bytes}
    {kept : StreamMessage} (hread : formats.unmarshalStream data = .ok kept) :
    Represents formats queue (db.set (streamKey queue seq) data) (m.set seq kept) := by
  have hpart : keyspace streamPrefix queue <+: streamKey queue seq := prefix_append _ _
  rw [Represents, inside_set data db hpart]
  exact Shows.set h (streamKey_strictMono queue) hread

theorem Represents.set_other (h : Represents formats queue db m) {key : Bytes} (value : Bytes)
    (hkey : ¬keyspace streamPrefix queue <+: key) : Represents formats queue (db.set key value) m := by
  rw [Represents, inside_set_of_not value db hkey]
  exact h

theorem Represents.deleteAll (h : Represents formats queue db m) {keys : List Bytes}
    {kept : UInt64 → Bool}
    (hkept : ∀ entry ∈ m.entries, kept entry.1 = true ↔ streamKey queue entry.1 ∉ keys) :
    Represents formats queue (db.deleteAll keys) (m.keep kept) := by
  rw [Represents, inside_deleteAll]
  exact Shows.deleteAll h keys hkept

def Represented (formats : Formats) (queue : Bytes) (db : Db) : Prop :=
  ∃ m, Represents formats queue db m

theorem Represented.deleteAll (h : Represented formats queue db) (keys : List Bytes) :
    Represented formats queue (db.deleteAll keys) :=
  have ⟨m, hm⟩ := h
  ⟨m.keep fun seq => streamKey queue seq ∉ keys, hm.deleteAll fun _ _ => decide_eq_true_iff⟩

theorem Represented.set_other (h : Represented formats queue db) {kind : Bytes} (rest value : Bytes)
    (hkind : kind.head? ≠ streamPrefix.head?) (hne : kind ≠ []) :
    Represented formats queue (db.set (kind ++ rest) value) := by
  obtain ⟨m, hm⟩ := h
  refine ⟨m, hm.set_other value fun hprefix => hkind ?_⟩
  have hhead := head?_keyspace (by decide : streamPrefix ∈ kinds) hprefix
  rwa [head?_append_of_ne_nil _ hne] at hhead

theorem Represented.update (h : Represented formats queue db) (fault : Option String)
    {change : Db → Db} (hchange : Represented formats queue (change db)) :
    Represented formats queue (update fault change db).2 := by
  cases fault with
  | none => exact hchange
  | some text => exact h

theorem Represented.deleteBatches (h : Represented formats queue db) (space : Bytes) (rounds : Nat)
    (faults : Nat → Option String) :
    Represented formats queue (deleteBatches space rounds faults db).2 :=
  deleteBatches_keeps (Represented formats queue) (fun _ keys _ h => h.deleteAll keys) rounds faults h

theorem collect_eq {decode : α → Except ε β} {entries : List α} {values : List β}
    (h : entries.map decode = values.map .ok) : collect decode entries = (values, none) := by
  induction entries generalizing values with
  | nil =>
    obtain rfl : values = [] := by simpa using h.symm
    rfl
  | cons entry entries ih =>
    cases values with
    | nil => cases h
    | cons value values =>
      rw [map_cons, map_cons, List.cons.injEq] at h
      rw [collect, h.1, ih h.2]

theorem Represents.load (h : Represents formats queue db m) (fromSeq : UInt64) (limit : Int) :
    loadStreamMessages formats queue fromSeq limit db = (m.load fromSeq limit, none) := by
  have hpart : keyspace streamPrefix queue ≤ streamKey queue fromSeq :=
    le_of_isPrefix (prefix_append _ _)
  have hscan := Shows.scan h (streamKey_strictMono queue) hpart
  have hvalues := congrArg (fun entries => (entries.take limit.toNat).map Prod.snd) hscan
  simp only [← map_take, map_map] at hvalues
  refine collect_eq ?_
  rw [StreamMap.load, map_map]
  exact hvalues

theorem streamKey_le_end (queue : Bytes) (seq : UInt64) :
    streamKey queue seq ≤ keyspace streamPrefix queue ++ [255] := by
  have hdigit : ∀ d : Fin 10, digit d < 255 := by decide
  refine le_of_lt ((append_lt_append_iff _).mpr ?_)
  rw [padded_eq, Digits.text, cons_lt_cons_iff]
  exact .inl (hdigit _)

theorem Formats.Lawful.scan_streamKey (h : formats.Lawful) (queue : Bytes) (seq : UInt64) :
    formats.scanNumber ((streamKey queue seq).drop (keyspace streamPrefix queue).length) = .ok seq := by
  rw [streamKey, drop_left]
  exact h.number.padded seq

theorem found_cases {found : Option (Bytes × Bytes)} {entry : Option (UInt64 × StreamMessage)}
    (h : found.map (Prod.map id formats.unmarshalStream) = entry.map (Prod.map (streamKey queue) .ok)) :
    found = none ∧ entry = none ∨
      ∃ seq msg data, found = some (streamKey queue seq, data) ∧ entry = some (seq, msg) := by
  cases entry with
  | none => exact .inl ⟨Option.map_eq_none_iff.mp h, rfl⟩
  | some entry =>
    obtain ⟨⟨key, data⟩, rfl, heq⟩ := Option.map_eq_some_iff.mp h
    obtain rfl : key = streamKey queue entry.1 := congrArg Prod.fst heq
    exact .inr ⟨entry.1, entry.2, data, rfl, rfl⟩

theorem Represents.sequence (h : Represents formats queue db m) (hformats : formats.Lawful) :
    getStreamSequence formats queue db = .ok (m.sequences.max?.getD 0) := by
  have hback := Shows.scanBack h (prefix_append _ _) fun seq _ => streamKey_le_end queue seq
  rw [StreamMap.sequences, max?_keys, getStreamSequence]
  rcases found_cases hback with ⟨hfound, hentry⟩ | ⟨seq, msg, data, hfound, hentry⟩
  · rw [hfound, hentry]
    rfl
  · rw [hfound, hentry]
    exact hformats.scan_streamKey queue seq

theorem Represents.stats (h : Represents formats queue db m) (hformats : formats.Lawful) :
    getStreamStats formats queue db = (m.sequences.min?.getD 0, m.sequences.max?.getD 0, none) := by
  have hfirst : ((db.scan (keyspace streamPrefix queue) (keyspace streamPrefix queue)).head?).map
      (Prod.map id formats.unmarshalStream) = m.entries.head?.map (Prod.map (streamKey queue) .ok) := by
    rw [← head?_map, ← head?_map, Shows.scan_self h]
  simp only [getStreamStats]
  rw [h.sequence hformats, show m.sequences.min? = m.entries.head?.map Prod.fst from min?_keys m]
  rcases found_cases hfirst with ⟨hfound, hentry⟩ | ⟨seq, msg, data, hfound, hentry⟩
  · rw [hfound, hentry]
    rfl
  · rw [hfound, hentry]
    simp only [hformats.scan_streamKey queue seq]
    rfl

theorem unixMilli_ge_iff {t : Time} {timestampMs : Int} :
    unixMilli t ≥ timestampMs ↔ unixEpoch + timestampMs * 1000000 ≤ t := by
  rw [unixMilli, ge_iff_le, Int.le_ediv_iff_mul_le (by decide)]
  exact le_sub_iff_add_le'

theorem seekTimestamp_eq (timestampMs : Int) {entries : List (Bytes × Bytes)}
    {pairs : List (UInt64 × StreamMessage)}
    (h : entries.map (Prod.map id formats.unmarshalStream) = pairs.map (Prod.map (streamKey queue) .ok)) :
    seekTimestamp formats timestampMs entries = (((pairs.find? fun entry =>
      unixEpoch + timestampMs * 1000000 ≤ entry.2.message.publishedAt).map
        fun entry => entry.2.sequence).getD 0, none) := by
  induction entries generalizing pairs with
  | nil =>
    obtain rfl : pairs = [] := by simpa using h.symm
    rfl
  | cons entry entries ih =>
    cases pairs with
    | nil => cases h
    | cons pair pairs =>
      rw [map_cons, map_cons, List.cons.injEq] at h
      have hread : formats.unmarshalStream entry.2 = .ok pair.2 := congrArg Prod.snd h.1
      rw [seekTimestamp, hread]
      by_cases hold : unixEpoch + timestampMs * 1000000 ≤ pair.2.message.publishedAt
      · simp only [find?_cons, hold, decide_true]
        exact if_pos (unixMilli_ge_iff.mpr hold)
      · simp only [find?_cons, hold, decide_false, ← ih h.2]
        exact if_neg (mt unixMilli_ge_iff.mp hold)

theorem Represents.byTimestamp (h : Represents formats queue db m) (timestampMs : Int) :
    getStreamMessageByTimestamp formats queue timestampMs db =
      (((m.firstAt timestampMs).map fun entry => entry.2.sequence).getD 0, none) :=
  seekTimestamp_eq timestampMs (Shows.scan_self h)

/-- Where messages are stored under their own numbers, the number of the key is theirs. -/
theorem StreamMap.map_firstAt (h : ∀ entry ∈ m.entries, entry.2.sequence = entry.1) {timestampMs : Int} :
    (m.firstAt timestampMs).map (fun entry => entry.2.sequence) = (m.firstAt timestampMs).map Prod.fst := by
  cases hfirst : m.firstAt timestampMs with
  | none => rfl
  | some entry => exact congrArg some (h entry (mem_of_find?_eq_some hfirst))

theorem mem_toDelete {seq : UInt64} {key : Bytes} :
    key ∈ ((db.scan (keyspace streamPrefix queue) (keyspace streamPrefix queue)).takeWhile
      fun entry => entry.1 < streamKey queue seq).map Prod.fst ↔
      key ∈ (db.under (keyspace streamPrefix queue)).map Prod.fst ∧ key < streamKey queue seq := by
  have hsorted : (db.under (keyspace streamPrefix queue)).Pairwise fun left right => left.1 < right.1 :=
    db.sorted.filter _
  rw [scan_self, takeWhile_eq_filter hsorted]
  · simp only [mem_map, mem_filter, decide_eq_true_eq]
    constructor
    · rintro ⟨entry, ⟨hentry, hlt⟩, rfl⟩
      exact ⟨⟨entry, hentry, rfl⟩, hlt⟩
    · rintro ⟨⟨entry, hentry, rfl⟩, hlt⟩
      exact ⟨entry, ⟨hentry, hlt⟩, rfl⟩
  · intro left _ right _ hlt hkept
    exact decide_eq_true (hlt.trans (decide_eq_true_iff.mp hkept))

theorem Represents.deleteBefore (h : Represents formats queue db m) (seq : UInt64) :
    Represents formats queue (deleteStreamMessagesBefore queue seq none db).2 (m.since seq) := by
  refine h.deleteAll fun entry hentry => ?_
  rw [mem_toDelete, (streamKey_strictMono queue).lt_iff_lt, decide_eq_true_iff,
    and_iff_right (Shows.mem_of_name h hentry), not_lt]

theorem Represents.mem_deleteBefore (h : Represents formats queue db m) (seq : UInt64)
    (entry : Bytes × Bytes) :
    entry ∈ (deleteStreamMessagesBefore queue seq none db).2.entries ↔
      entry ∈ db.entries ∧ ∀ n < seq, entry.1 ≠ streamKey queue n := by
  change entry ∈ (db.deleteAll _).entries ↔ _
  rw [mem_deleteAll, mem_toDelete]
  refine and_congr_right fun hentry => ⟨fun hkept n hlt heq => hkept ?_, fun hkept ⟨hmem, hlt⟩ => ?_⟩
  · have hpart : keyspace streamPrefix queue <+: entry.1 := heq ▸ prefix_append _ _
    refine ⟨mem_map_of_mem (mem_under.mpr ⟨hentry, hpart⟩), ?_⟩
    rw [heq]
    exact streamKey_strictMono queue hlt
  · obtain ⟨other, hother, heq⟩ := mem_map.mp hmem
    obtain ⟨n, hn, -⟩ := Shows.name_of_mem h hother
    rw [heq] at hn
    rw [hn, (streamKey_strictMono queue).lt_iff_lt] at hlt
    exact hkept n hlt hn

/-- A call that stores nothing in another stream whose name starts with the queue's and a colon. -/
def Call.Apart (queue : Bytes) : Call → Prop
  | .saveStreamMessage name _ _ => name ≠ queue → ¬queue ++ [colon] <+: name
  | _ => True

inductive ReachedApart (formats : Formats) (queue : Bytes) : Db → Prop where
  | empty : ReachedApart formats queue .empty
  | call {db : Db} (call : Call) (faults : Nat → Option String) : call.Apart queue →
      ReachedApart formats queue db → ReachedApart formats queue (call.run formats faults db)

theorem Represented.saveStreamMessage (h : Represented formats queue db) (hformats : formats.Lawful)
    {name : Bytes} (hapart : name ≠ queue → ¬queue ++ [colon] <+: name) (seq : UInt64)
    (msg : StreamMessage) (fault : Option String) :
    Represented formats queue (saveStreamMessage formats name seq msg fault db).2 := by
  simp only [Badger.saveStreamMessage]
  split
  · exact h
  · rename_i data hdata
    obtain ⟨m, hm⟩ := h
    refine Represented.update ⟨m, hm⟩ fault ?_
    by_cases hname : name = queue
    · obtain ⟨kept, hkept⟩ := hformats.stream msg data hdata
      subst hname
      exact ⟨m.set seq kept, hm.set seq hkept⟩
    · exact ⟨m, hm.set_other data fun hprefix => hapart hname (isPrefix_of_streamKey hname hprefix)⟩

theorem Represented.run (h : Represented formats queue db) (hformats : formats.Lawful) (call : Call)
    (faults : Nat → Option String) (hapart : call.Apart queue) :
    Represented formats queue (call.run formats faults db) := by
  cases call with
  | saveMessage order msg =>
    refine h.update (faults 0) ?_
    rw [msgKey, keyspace, append_assoc, append_assoc]
    exact h.set_other _ _ (by decide) (by decide)
  | deleteMessage name id => exact h.update (faults 0) (h.deleteAll [msgKey name id])
  | deleteQueueMessages name => exact h.deleteBatches _ _ faults
  | saveQueue name config => exact h.update (faults 0) (h.set_other name _ (by decide) (by decide))
  | saveStreamMessage name seq msg => exact h.saveStreamMessage hformats hapart seq msg (faults 0)
  | deleteStreamMessagesBefore name seq => exact h.update (faults 0) (h.deleteAll _)
  | saveConsumerOffset name group offset =>
    refine h.update (faults 0) ?_
    rw [offsetKey, keyspace, append_assoc, append_assoc]
    exact h.set_other _ _ (by decide) (by decide)

theorem ReachedApart.represented (hformats : formats.Lawful) (h : ReachedApart formats queue db) :
    Represented formats queue db := by
  induction h with
  | empty => exact ⟨.empty, rfl⟩
  | call call faults hapart _ ih => exact ih.run hformats call faults hapart

end Changes

/-- Whatever calls lead to the store, if no other stream has a name that starts with this one
and a colon, it holds a sorted map from numbers to messages for the stream. The reads of the
stream are the reads of that map, a delete removes the entries below its number and nothing
else, and a save sets an entry. -/
theorem streams_refine (formats : Formats) (hformats : formats.Lawful) (queue : Bytes) :
    (∀ db, ReachedApart formats queue db → ∃ m, Represents formats queue db m) ∧
    ∀ db m, Represents formats queue db m →
      (∀ fromSeq limit, loadStreamMessages formats queue fromSeq limit db = (m.load fromSeq limit, none)) ∧
      getStreamSequence formats queue db = .ok (m.sequences.max?.getD 0) ∧
      getStreamStats formats queue db = (m.sequences.min?.getD 0, m.sequences.max?.getD 0, none) ∧
      (∀ timestampMs, getStreamMessageByTimestamp formats queue timestampMs db =
        (((m.firstAt timestampMs).map fun entry => entry.2.sequence).getD 0, none)) ∧
      ((∀ entry ∈ m.entries, entry.2.sequence = entry.1) → ∀ timestampMs,
        getStreamMessageByTimestamp formats queue timestampMs db =
          (((m.firstAt timestampMs).map Prod.fst).getD 0, none)) ∧
      (∀ seq, Represents formats queue (deleteStreamMessagesBefore queue seq none db).2 (m.since seq) ∧
        ∀ entry, entry ∈ (deleteStreamMessagesBefore queue seq none db).2.entries ↔
          entry ∈ db.entries ∧ ∀ n < seq, entry.1 ≠ streamKey queue n) ∧
      ∀ seq msg data kept, formats.marshalStream msg = .ok data →
        formats.unmarshalStream data = .ok kept →
        Represents formats queue (saveStreamMessage formats queue seq msg none db).2 (m.set seq kept) := by
  refine ⟨fun db h => h.represented hformats, fun db m h => ?_⟩
  refine ⟨h.load, h.sequence hformats, h.stats hformats, h.byTimestamp, ?_, fun seq => ?_, ?_⟩
  · intro hown timestampMs
    rw [h.byTimestamp, StreamMap.map_firstAt hown]
  · exact ⟨h.deleteBefore seq, h.mem_deleteBefore seq⟩
  · intro seq msg data kept hdata hread
    rw [saveStreamMessage, hdata]
    exact h.set seq hread

/-- `%d` on digits. -/
def readDigits (text : Bytes) : Except String UInt64 :=
  if text ≠ [] ∧ text.all (fun byte => 48 ≤ byte && byte ≤ 57) = true then
    .ok (UInt64.ofNat (text.foldl (fun n byte => n * 10 + (byte.toNat - 48)) 0))
  else .error "expected integer"

theorem readsNumbers_readDigits : ReadsNumbers readDigits := by
  intro digits hne _
  have hrange : ∀ d : Fin 10, (48 ≤ digit d && digit d ≤ 57) = true := by decide
  have hvalue : ∀ d : Fin 10, (digit d).toNat - 48 = d := by decide
  have hdigits : digits.map digit ≠ [] ∧
      (digits.map digit).all (fun byte => 48 ≤ byte && byte ≤ 57) = true := by
    refine ⟨mt map_eq_nil_iff.mp hne, all_eq_true.mpr fun byte hbyte => ?_⟩
    obtain ⟨d, -, rfl⟩ := mem_map.mp hbyte
    exact hrange d
  rw [readDigits, if_pos hdigits, foldl_map]
  simp only [hvalue]
  rfl

/-- `%d` of a number: the padded digits without the zeros in front, and the last digit at
least. -/
def printed (seq : UInt64) : Bytes :=
  let digits := (Digits.digits 10 20 seq.toNat).dropWhile (· = 0)
  (if digits = [] then [0] else digits).map digit

theorem readDigits_printed (seq : UInt64) : readDigits (printed seq) = .ok seq := by
  have hvalue : Digits.value ((Digits.digits 10 20 seq.toNat).dropWhile (· = 0)) = seq.toNat := by
    rw [Digits.value_dropWhile_zero, Digits.value_digits (toNat_lt_pow seq)]
  have hprinted (digits : List (Fin 10)) (hne : digits ≠ [])
      (hdigits : Digits.value digits = seq.toNat) : readDigits (digits.map digit) = .ok seq := by
    rw [readsNumbers_readDigits digits hne (hdigits ▸ seq.toNat_lt), hdigits, UInt64.ofNat_toNat]
  simp only [printed]
  split
  · rename_i hnil
    refine hprinted [0] (cons_ne_nil _ _) ?_
    rw [← hvalue, hnil]
    rfl
  · rename_i hne
    exact hprinted _ hne hvalue

instance (msg : Message) : Decidable msg.Encodable :=
  decidable_of_iff ((FitsInt msg.id.length ∧ FitsInt msg.queue.length ∧ FitsInt msg.payload.length) ∧
    (FitsInt msg.headers.entries.length ∧
      ∀ header ∈ msg.headers.entries, FitsInt header.1.length ∧ FitsInt header.2.length) ∧
    FitsInt msg.orderingKey.length ∧ Representable msg.publishedAt ∧ Representable msg.visibleAt) (by
    constructor
    · rintro ⟨⟨hid, hqueue, hpayload⟩, ⟨hcount, hheaders⟩, hkey, hpublished, hvisible⟩
      exact ⟨hid, hqueue, hpayload, hcount, hheaders, hkey, hpublished, hvisible⟩
    · intro h
      exact ⟨⟨h.id, h.queue, h.payload⟩, ⟨h.count, h.headers⟩, h.orderingKey, h.publishedAt,
        h.visibleAt⟩)

def wholeMarshal (msg : StreamMessage) : Except String Bytes :=
  if msg.message.Encodable then .ok (padded msg.sequence ++ encodeMessageV1 [] msg.message)
  else .error "year outside of range"

def wholeUnmarshal (data : Bytes) : Except String StreamMessage := do
  let seq ← readDigits (data.take 20)
  let msg ← (decodeMessage (fun _ _ => .error .emptyPayload) (data.drop 20) (blankMessage [] [])).mapError
    DecodeError.message
  return ⟨msg, seq⟩

/-- Formats that keep a message whole, with the layout of the older records in place of JSON. -/
def wholeFormats : Formats where
  marshalConfig _ := []
  marshalStream := wholeMarshal
  unmarshalStream := wholeUnmarshal
  unmarshalMessage _ _ := .error (.json "unexpected end of JSON input")
  printOffset := printed
  scanNumber := readDigits

theorem wholeFormats_stream {msg : StreamMessage} (h : msg.message.Encodable) :
    ∃ kept, wholeUnmarshal (padded msg.sequence ++ encodeMessageV1 [] msg.message) = .ok kept ∧
      kept.sequence = msg.sequence ∧ kept.message.Same msg.message := by
  have hlength : (padded msg.sequence).length = 20 := rfl
  obtain ⟨decoded, hdecode, hsame⟩ := decodeMessage_encodeMessageV1 (fun _ _ => .error .emptyPayload)
    (blankMessage [] []) [] h
  refine ⟨⟨decoded, msg.sequence⟩, ?_, rfl, hsame⟩
  rw [wholeUnmarshal, take_left' hlength, drop_left' hlength, readsNumbers_readDigits.padded, hdecode]
  rfl

theorem wholeFormats_lawful : wholeFormats.Lawful where
  stream := by
    intro msg data hdata
    simp only [wholeFormats, wholeMarshal] at hdata
    split at hdata
    · rename_i h
      cases hdata
      obtain ⟨kept, hkept, -⟩ := wholeFormats_stream h
      exact ⟨kept, hkept⟩
    · cases hdata
  number := readsNumbers_readDigits

def numbered (seq : UInt64) : StreamMessage := ⟨earlyOrder, seq⟩

def tenAndNine : Db :=
  (saveStreamMessage wholeFormats [113] 9 (numbered 9) none
    (saveStreamMessage wholeFormats [113] 10 (numbered 10) none .empty).2).2

theorem streams_refine_tenAndNine :
    loadStreamMessages wholeFormats [113] 0 5 tenAndNine = ([numbered 9, numbered 10], none) ∧
      getStreamStats wholeFormats [113] tenAndNine = (9, 10, none) := by
  have hrefine := (streams_refine wholeFormats wholeFormats_lawful [113]).2
  have hsave {db : Db} {m : StreamMap} (h : Represents wholeFormats [113] db m) (seq : UInt64) :=
    (hrefine db m h).2.2.2.2.2.2 seq (numbered seq)
  have hempty : Represents wholeFormats [113] .empty .empty := rfl
  have hten := hsave hempty 10 _ (numbered 10) rfl (by decide)
  have hreads := hrefine tenAndNine _ (hsave hten 9 _ (numbered 9) rfl (by decide))
  refine ⟨?_, ?_⟩
  · rw [hreads.1 0 5]
    rfl
  · rw [hreads.2.2.1]
    rfl

end QwerQ.Badger
