import QwerQ.Stream.Sequence

/-! Delivery from a stream to its consumers. A message reaches a consumer's channel by
the publisher's notification or by the loop of `deliverFromStorage`, which reads the
storage and sends outside the stream's lock. A consumer is known by the number of its
channel; no consumer leaves here. -/
namespace QwerQ
open List

/-- Where `Subscribe` and the goroutine it starts stand for one consumer: after the locked
section of `Subscribe`, at the top of the loop, before the load, within the batch, between
a send and the move of the offset, and at the end. -/
inductive StreamDelivery where
  | subscribed (startOffset : UInt64)
  | checking
  | loading (currentOffset : UInt64)
  | sending (msgs : List StreamRecord)
  | moving (sequence : UInt64) (rest : List StreamRecord)
  | returned
  deriving DecidableEq

namespace StreamQueue
variable {sq : StreamQueue} {sc : StreamConsumer} {ch : Nat}

def deliveryBatch : Nat := 100

/-- One step of the consumer's goroutine. A send to a full channel waits. -/
def deliverFromStorage (sq : StreamQueue) (disk : Disk) (sc : StreamConsumer) :
    StreamDelivery → StreamDelivery × StreamConsumer × Disk
  | .subscribed startOffset =>
      (if 0 < startOffset ∧ startOffset < sq.nextSeq then .checking else .returned, sc, disk)
  | .checking =>
      (if sq.nextSeq ≤ sc.offset ∨ disk.present = false then .returned else .loading sc.offset,
        sc, disk)
  | .loading currentOffset =>
      match disk.read (Storage.loadStreamMessages sq.name currentOffset deliveryBatch) with
      | (.ok (first :: rest), disk) => (.sending (first :: rest), sc, disk)
      | (_, disk) => (.returned, sc, disk)
  | .sending [] => (.checking, sc, disk)
  | .sending (smsg :: rest) =>
      if sc.buffer.length < streamBuffer then
        let msg := { smsg.msg with sequence := smsg.seq }
        (.moving smsg.seq rest, { sc with buffer := sc.buffer ++ [msg] }, disk)
      else (.sending (smsg :: rest), sc, disk)
  | .moving sequence rest => (.sending rest, { sc with offset := sequence + 1 }, disk)
  | .returned => (.returned, sc, disk)

def consumer (ch : Nat) (sq : StreamQueue) : Option StreamConsumer :=
  sq.consumers.find? fun sc => sc.ch = ch

def setConsumer (sc : StreamConsumer) (sq : StreamQueue) : StreamQueue :=
  { sq with consumers := sq.consumers.map fun other => if other.ch = sc.ch then sc else other }

theorem consumer_ch (h : sq.consumer ch = some sc) : sc.ch = ch := by
  simpa using find?_some h

theorem notify_ch (msg : Message) (sc : StreamConsumer) : (sc.notify msg).ch = sc.ch := by
  unfold StreamConsumer.notify
  split <;> rfl

theorem consumer_appended (msg : Message) (ch : Nat) (sq : StreamQueue) :
    (sq.appended msg).consumer ch =
      (sq.consumer ch).map (StreamConsumer.notify { msg with sequence := sq.nextSeq }) := by
  rw [consumer, consumer, appended, find?_map]
  congr 2
  funext sc
  simp only [Function.comp_apply, notify_ch]

theorem consumer_setConsumer (changed : StreamConsumer) (ch : Nat) (sq : StreamQueue) :
    (sq.setConsumer changed).consumer ch =
      (sq.consumer ch).map fun other => if other.ch = changed.ch then changed else other := by
  rw [consumer, consumer, setConsumer, find?_map]
  congr 2
  funext other
  simp only [Function.comp_apply]
  split
  · rename_i hch
    rw [hch]
  · rfl

theorem consumer_setConsumer_self (h : sq.consumer ch = some sc) {changed : StreamConsumer}
    (hch : changed.ch = ch) : (sq.setConsumer changed).consumer ch = some changed := by
  rw [consumer_setConsumer, h, Option.map_some, if_pos ((consumer_ch h).trans hch.symm)]

theorem consumer_setConsumer_other {changed : StreamConsumer} (hch : changed.ch ≠ ch) :
    (sq.setConsumer changed).consumer ch = sq.consumer ch := by
  rw [consumer_setConsumer]
  cases h : sq.consumer ch with
  | none => rfl
  | some other =>
    rw [Option.map_some, if_neg fun heq => hch (heq.symm.trans (consumer_ch h))]

theorem consumer_subscribe (group : String) (startOffset : UInt64) (ch : Nat) (sq : StreamQueue) :
    (sq.subscribe group startOffset).1.consumer ch = (sq.consumer ch).or
      (if sq.made = ch then
        some ⟨sq.made, group, if startOffset = 0 then sq.nextSeq else startOffset, []⟩
      else none) := by
  rw [consumer, consumer, subscribe, find?_append, find?_singleton]
  simp only [decide_eq_true_eq]

theorem deliverFromStorage_ch (disk : Disk) (sc : StreamConsumer) (delivery : StreamDelivery) :
    (sq.deliverFromStorage disk sc delivery).2.1.ch = sc.ch := by
  fun_cases deliverFromStorage sq disk sc delivery <;> rfl

theorem deliverFromStorage_disk (disk : Disk) (sc : StreamConsumer) (delivery : StreamDelivery) :
    (sq.deliverFromStorage disk sc delivery).2.2 = disk ∨
      (sq.deliverFromStorage disk sc delivery).2.2 = disk.called disk.storage := by
  cases delivery with
  | loading currentOffset =>
    have hdisk := Disk.read_disk
      (Storage.loadStreamMessages sq.name currentOffset deliveryBatch) disk
    refine .inr (Eq.trans ?_ hdisk)
    simp only [deliverFromStorage]
    split
    · rename_i hread
      rw [hread]
    · rename_i hread
      rw [hread]
  | sending msgs =>
    cases msgs with
    | nil => exact .inl rfl
    | cons smsg rest =>
      simp only [deliverFromStorage]
      split <;> exact .inl rfl
  | subscribed | checking | moving | returned => exact .inl rfl

end StreamQueue

/-- A consumer with what its client has taken from the channel. -/
structure StreamReader where
  delivery : StreamDelivery
  received : List Message

structure StreamFeed where
  queue : StreamQueue
  disk : Disk
  readers : List StreamReader

namespace StreamFeed
variable {s s' : StreamFeed} {ch : Nat}

def opened (name : String) (disk : Disk) : StreamFeed :=
  ⟨(StreamLog.opened name disk).queue, (StreamLog.opened name disk).disk, []⟩

inductive Action where
  | publish (msg : Message)
  | subscribe (group : String) (startOffset : UInt64)
  | deliver (ch : Nat)
  | receive (ch : Nat)
  deriving DecidableEq

def atReader (ch : Nat)
    (change : StreamConsumer → StreamReader → StreamConsumer × StreamReader × Disk)
    (s : StreamFeed) : StreamFeed :=
  match s.queue.consumer ch, s.readers[ch]? with
  | some sc, some reader =>
      let (sc, reader, disk) := change sc reader
      ⟨s.queue.setConsumer sc, disk, s.readers.set ch reader⟩
  | _, _ => s

def deliver (queue : StreamQueue) (disk : Disk) (sc : StreamConsumer) (reader : StreamReader) :
    StreamConsumer × StreamReader × Disk :=
  let (delivery, sc, disk) := queue.deliverFromStorage disk sc reader.delivery
  (sc, { reader with delivery := delivery }, disk)

def receive (disk : Disk) (sc : StreamConsumer) (reader : StreamReader) :
    StreamConsumer × StreamReader × Disk :=
  match sc.buffer with
  | [] => (sc, reader, disk)
  | msg :: rest =>
      ({ sc with buffer := rest }, { reader with received := reader.received ++ [msg] }, disk)

def act : Action → StreamFeed → StreamFeed
  | .publish msg, s =>
      let ((queue, disk), _) := s.queue.publish msg s.disk
      { s with queue := queue, disk := disk }
  | .subscribe group startOffset, s =>
      { s with
        queue := (s.queue.subscribe group startOffset).1
        readers := s.readers ++ [⟨.subscribed startOffset, []⟩] }
  | .deliver ch, s => s.atReader ch (deliver s.queue s.disk)
  | .receive ch, s => s.atReader ch (receive s.disk)

def sent (ch : Nat) (s : StreamFeed) : List Message :=
  match s.queue.consumer ch, s.readers[ch]? with
  | some sc, some reader => reader.received ++ sc.buffer
  | _, _ => []

inductive Step (guard : StreamFeed → Action → Prop) :
    List Action → StreamFeed → List Action → StreamFeed → Prop where
  | act {history : List Action} {s : StreamFeed} (action : Action) :
      guard s action → Step guard history s [action] (s.act action)

abbrev Runs (guard : StreamFeed → Action → Prop) := Run (Step guard)

/-- The counter of 64 bits has a number left after this one. -/
def hasRoom (s : StreamFeed) : Action → Prop
  | .publish _ => s.queue.nextSeq + 1 ≠ 0
  | _ => True

inductive Effect (s : StreamFeed) : Action → StreamFeed → Prop where
  | refused {msg : Message} :
      Effect s (.publish msg) { s with disk := s.disk.called s.disk.storage }
  | published {msg : Message} :
      Effect s (.publish msg) { s with
        queue := s.queue.appended msg
        disk := s.disk.wrote (Storage.saveStreamMessage s.queue.name s.queue.nextSeq
          { msg with sequence := s.queue.nextSeq }) }
  | subscribed {group : String} {startOffset : UInt64} :
      Effect s (.subscribe group startOffset) { s with
        queue := (s.queue.subscribe group startOffset).1
        readers := s.readers ++ [⟨.subscribed startOffset, []⟩] }
  | moved {action : Action} {ch : Nat} {sc : StreamConsumer} {reader : StreamReader}
      {turn : StreamConsumer × StreamReader × Disk}
      (hsc : s.queue.consumer ch = some sc) (hreader : s.readers[ch]? = some reader)
      (hturn : turn = deliver s.queue s.disk sc reader ∨ turn = receive s.disk sc reader) :
      Effect s action ⟨s.queue.setConsumer turn.1, turn.2.2, s.readers.set ch turn.2.1⟩
  | idle {action : Action} : Effect s action s

theorem act_effect (action : Action) (s : StreamFeed) : Effect s action (s.act action) := by
  cases action with
  | publish msg =>
    by_cases hfails : s.disk.fails 0
    · have ⟨err, hpublish⟩ := s.queue.publish_of_fails msg hfails
      simp only [act, hpublish]
      exact .refused
    · simp only [act, s.queue.publish_of_not_fails msg hfails]
      exact .published
  | subscribe group startOffset => exact .subscribed
  | deliver ch =>
    simp only [act, atReader]
    split
    · rename_i hsc hreader
      exact .moved hsc hreader (.inl rfl)
    · exact .idle
  | receive ch =>
    simp only [act, atReader]
    split
    · rename_i hsc hreader
      exact .moved hsc hreader (.inr rfl)
    · exact .idle

section Turn
variable {queue : StreamQueue} {disk : Disk} {sc : StreamConsumer} {reader : StreamReader}
  {turn : StreamConsumer × StreamReader × Disk}

theorem turn_ch (h : turn = deliver queue disk sc reader ∨ turn = receive disk sc reader) :
    turn.1.ch = sc.ch := by
  rcases h with rfl | rfl
  · exact StreamQueue.deliverFromStorage_ch disk sc reader.delivery
  · unfold receive
    split <;> rfl

theorem turn_disk (h : turn = deliver queue disk sc reader ∨ turn = receive disk sc reader) :
    turn.2.2 = disk ∨ turn.2.2 = disk.called disk.storage := by
  rcases h with rfl | rfl
  · exact StreamQueue.deliverFromStorage_disk disk sc reader.delivery
  · unfold receive
    split <;> exact .inl rfl

end Turn

structure Complete (s : StreamFeed) : Prop where
  present : s.disk.present = true
  positive : s.queue.nextSeq ≠ 0
  stored : ∀ n, (∃ record ∈ s.disk.storage.streamRecords s.queue.name, record.seq = n) ↔
    n ≠ 0 ∧ n < s.queue.nextSeq

theorem Complete.of_called (h : s.Complete) (hname : s'.queue.name = s.queue.name)
    (hnext : s'.queue.nextSeq = s.queue.nextSeq)
    (hdisk : s'.disk = s.disk ∨ s'.disk = s.disk.called s.disk.storage) : s'.Complete := by
  have hpresent : s'.disk.present = true := by
    rcases hdisk with hdisk | hdisk <;> rw [hdisk] <;> exact h.present
  have hstorage : s'.disk.storage = s.disk.storage := by
    rcases hdisk with hdisk | hdisk <;> rw [hdisk]
    rfl
  refine ⟨hpresent, hnext ▸ h.positive, ?_⟩
  rw [hname, hnext, hstorage]
  exact h.stored

theorem Complete.published (h : s.Complete) (hroom : s.queue.nextSeq + 1 ≠ 0) (msg : Message) :
    Complete { s with
      queue := s.queue.appended msg
      disk := s.disk.wrote (Storage.saveStreamMessage s.queue.name s.queue.nextSeq
        { msg with sequence := s.queue.nextSeq }) } := by
  rw [Disk.wrote, if_pos h.present]
  refine ⟨h.present, hroom, fun n => ?_⟩
  change (∃ record ∈ (s.disk.storage.saveStreamMessage s.queue.name s.queue.nextSeq _).streamRecords
    s.queue.name, record.seq = n) ↔ n ≠ 0 ∧ n < s.queue.nextSeq + 1
  have hstored := h.stored n
  have hpositive := h.positive
  constructor
  · rintro ⟨record, hmem, hseq⟩
    rcases Storage.mem_saveStreamMessage.mp hmem with rfl | ⟨hold, _⟩
    · rw [← hseq]
      grind
    · have hbelow := hstored.mp ⟨record, hold, hseq⟩
      grind
  · rintro ⟨hzero, hlt⟩
    by_cases hnew : n = s.queue.nextSeq
    · exact ⟨_, Storage.mem_saveStreamMessage.mpr (.inl rfl), hnew.symm⟩
    · obtain ⟨record, hmem, hseq⟩ := hstored.mpr ⟨hzero, by grind⟩
      exact ⟨record, Storage.mem_saveStreamMessage.mpr (.inr ⟨hmem, hseq ▸ hnew⟩), hseq⟩

theorem Complete.step {action : Action} (h : s.Complete) (hguard : hasRoom s action)
    (heffect : Effect s action s') : s'.Complete := by
  cases heffect with
  | refused => exact h.of_called rfl rfl (.inr rfl)
  | published => exact h.published hguard _
  | subscribed => exact h.of_called rfl rfl (.inl rfl)
  | moved hsc hreader hturn => exact h.of_called rfl rfl (turn_disk hturn)
  | idle => exact h

/-- The batch goes on from the number, without a gap, within what is stored. -/
def InTurn (tail : UInt64) : UInt64 → List StreamRecord → Prop
  | n, [] => n ≤ tail
  | n, smsg :: rest => smsg.seq = n ∧ n < tail ∧ InTurn tail (n + 1) rest

theorem InTurn.mono {tail tail' n : UInt64} {msgs : List StreamRecord} (h : InTurn tail n msgs)
    (hle : tail ≤ tail') : InTurn tail' n msgs := by
  induction msgs generalizing n with
  | nil => exact UInt64.le_trans h hle
  | cons smsg rest ih =>
    have ⟨hseq, hlt, hrest⟩ := h
    exact ⟨hseq, by grind, ih hrest⟩

theorem inTurn_take {tail n : UInt64} {records : List StreamRecord} (limit : Nat)
    (hincreasing : records.Pairwise fun left right => left.seq < right.seq) (hle : n ≤ tail)
    (hstored : ∀ m, (∃ record ∈ records, record.seq = m) ↔ n ≤ m ∧ m < tail) :
    InTurn tail n (records.take limit) := by
  induction records generalizing n limit with
  | nil => simpa [InTurn] using hle
  | cons first rest ih =>
    cases limit with
    | zero => exact hle
    | succ limit =>
      have ⟨hbefore, hrest⟩ := pairwise_cons.mp hincreasing
      have ⟨hlow, hhigh⟩ := (hstored first.seq).mp ⟨first, mem_cons_self, rfl⟩
      have hfirst : first.seq = n := by
        have ⟨record, hmem, hseq⟩ := (hstored n).mpr ⟨UInt64.le_refl n, by grind⟩
        rcases mem_cons.mp hmem with rfl | hlater
        · exact hseq
        · have hlt := hbefore record hlater
          grind
      refine ⟨hfirst, by grind, ih limit hrest (by grind) fun m => ?_⟩
      have hiff := hstored m
      constructor
      · rintro ⟨record, hmem, hseq⟩
        have hlt := hbefore record hmem
        have hin := hiff.mp ⟨record, mem_cons_of_mem _ hmem, hseq⟩
        grind
      · rintro ⟨hge, hlt⟩
        have ⟨record, hmem, hseq⟩ := hiff.mpr ⟨by grind, hlt⟩
        rcases mem_cons.mp hmem with rfl | hlater
        · grind
        · exact ⟨record, hlater, hseq⟩

theorem Complete.load {offset : UInt64} (h : s.Complete) (hzero : offset ≠ 0)
    (hlt : offset < s.queue.nextSeq) (limit : Nat) :
    InTurn s.queue.nextSeq offset
      (s.disk.storage.loadStreamMessages s.queue.name offset limit) := by
  have hincreasing := s.disk.storage.streamRecords_increasing s.queue.name
  refine inTurn_take limit (hincreasing.filter _) (UInt64.le_of_lt hlt) fun m => ?_
  have hstored := h.stored m
  simp only [mem_filter, decide_eq_true_eq]
  constructor
  · rintro ⟨record, ⟨hmem, hge⟩, rfl⟩
    exact ⟨hge, (hstored.mp ⟨record, hmem, rfl⟩).2⟩
  · rintro ⟨hge, hbelow⟩
    obtain ⟨record, hmem, hseq⟩ := hstored.mpr ⟨by grind, hbelow⟩
    exact ⟨record, ⟨hmem, hseq ▸ hge⟩, hseq⟩

structure Numbered (start next : UInt64) (msgs : List Message) : Prop where
  numbers : msgs.map (·.sequence.toNat) = List.range' start.toNat msgs.length
  next : next.toNat = start.toNat + msgs.length

theorem toNat_next {n : UInt64} (h : n + 1 ≠ 0) : (n + 1).toNat = n.toNat + 1 := by
  have hsum : (n + 1).toNat = (n.toNat + 1) % 2 ^ 64 := UInt64.toNat_add n 1
  have hzero : (n + 1).toNat ≠ 0 := fun hzero => h (UInt64.toNat_inj.mp hzero)
  have hlt := n.toNat_lt
  omega

theorem Numbered.snoc {start next : UInt64} {msgs : List Message} {msg : Message}
    (h : Numbered start next msgs) (hmsg : msg.sequence = next) (hroom : next + 1 ≠ 0) :
    Numbered start (next + 1) (msgs ++ [msg]) where
  numbers := by
    rw [map_append, map_singleton, length_append, length_singleton,
      range'_1_concat, h.numbers, hmsg, h.next]
  next := by
    rw [length_append, length_singleton, toNat_next hroom, h.next, Nat.add_assoc]

theorem Numbered.ne_zero {start next : UInt64} {msgs : List Message}
    (h : Numbered start next msgs) (hstart : start ≠ 0) : next ≠ 0 := by
  intro hzero
  have hnext := h.next
  rw [hzero, UInt64.toNat_zero] at hnext
  exact hstart (UInt64.toNat_inj.mp (by rw [UInt64.toNat_zero]; omega))

def position (offset : UInt64) : StreamDelivery → UInt64
  | .moving sequence _ => sequence + 1
  | _ => offset

/-- What the goroutine holds fits the consumer's offset. While it has something to send, the
offset is below the tail, and the publisher leaves the consumer alone. -/
def Fits (tail offset : UInt64) : StreamDelivery → Prop
  | .loading currentOffset => currentOffset = offset ∧ offset < tail
  | .sending msgs => InTurn tail offset msgs
  | .moving sequence rest => offset = sequence ∧ sequence < tail ∧ InTurn tail (sequence + 1) rest
  | _ => True

structure Tracks (start tail : UInt64) (sc : StreamConsumer) (reader : StreamReader) : Prop where
  sent : Numbered start (position sc.offset reader.delivery) (reader.received ++ sc.buffer)
  fits : Fits tail sc.offset reader.delivery

theorem Fits.mono {tail tail' offset : UInt64} {delivery : StreamDelivery}
    (h : Fits tail offset delivery) (hle : tail ≤ tail') : Fits tail' offset delivery := by
  cases delivery with
  | loading currentOffset =>
    have ⟨hoffset, hlt⟩ := h
    exact ⟨hoffset, by grind⟩
  | sending msgs => exact InTurn.mono h hle
  | moving sequence rest =>
    have ⟨hoffset, hlt, hrest⟩ := h
    exact ⟨hoffset, by grind, hrest.mono hle⟩
  | subscribed | checking | returned => trivial

theorem Fits.at_tail {tail : UInt64} {delivery : StreamDelivery} (h : Fits tail tail delivery)
    (offset : UInt64) : position offset delivery = offset ∧ Fits offset offset delivery := by
  cases delivery with
  | loading currentOffset =>
    have hlt := h.2
    grind
  | sending msgs =>
    cases msgs with
    | nil => exact ⟨rfl, UInt64.le_refl _⟩
    | cons smsg rest =>
      have hlt := h.2.1
      grind
  | moving sequence rest =>
    have ⟨hoffset, hlt, _⟩ := h
    grind
  | subscribed | checking | returned => exact ⟨rfl, trivial⟩

section Tracks
variable {start tail : UInt64} {sc : StreamConsumer} {reader : StreamReader}

theorem Tracks.notify {msg : Message} (h : Tracks start tail sc reader)
    (hmsg : msg.sequence = tail) (hroom : tail + 1 ≠ 0) :
    Tracks start (tail + 1) (sc.notify msg) reader := by
  unfold StreamConsumer.notify
  subst hmsg
  split
  · rename_i hpushed
    have ⟨hsent, hfits⟩ := h
    rw [hpushed.1] at hsent hfits
    rw [(hfits.at_tail _).1] at hsent
    refine ⟨?_, (hfits.at_tail _).2⟩
    rw [(hfits.at_tail _).1, ← append_assoc]
    exact hsent.snoc rfl hroom
  · exact ⟨h.sent, h.fits.mono (by grind)⟩

theorem Tracks.receive (h : Tracks start tail sc reader) (disk : Disk) :
    Tracks start tail (receive disk sc reader).1 (receive disk sc reader).2.1 := by
  unfold StreamFeed.receive
  split
  · exact h
  · rename_i msg rest hbuffer
    have hsent := h.sent
    rw [hbuffer, ← singleton_append, ← append_assoc] at hsent
    exact ⟨hsent, h.fits⟩

theorem Tracks.deliver (hcomplete : s.Complete) (hstart : start ≠ 0)
    (h : Tracks start s.queue.nextSeq sc reader) :
    Tracks start s.queue.nextSeq (deliver s.queue s.disk sc reader).1
      (deliver s.queue s.disk sc reader).2.1 := by
  have ⟨hsent, hfits⟩ := h
  obtain ⟨delivery, received⟩ := reader
  cases delivery with
  | subscribed startOffset =>
    simp only [StreamFeed.deliver, StreamQueue.deliverFromStorage]
    split <;> exact ⟨hsent, trivial⟩
  | checking =>
    simp only [StreamFeed.deliver, StreamQueue.deliverFromStorage]
    split
    · exact ⟨hsent, trivial⟩
    · rename_i hbelow
      exact ⟨hsent, rfl, by grind⟩
  | loading currentOffset =>
    obtain ⟨rfl, hlt⟩ := hfits
    have hoffset : sc.offset ≠ 0 := hsent.ne_zero hstart
    have hload := hcomplete.load hoffset hlt StreamQueue.deliveryBatch
    simp only [StreamFeed.deliver, StreamQueue.deliverFromStorage]
    split
    · rename_i first rest disk hread
      rw [← Disk.read_ok (congrArg Prod.fst hread)] at hload
      exact ⟨hsent, hload⟩
    · exact ⟨hsent, trivial⟩
  | sending msgs =>
    cases msgs with
    | nil => exact ⟨hsent, trivial⟩
    | cons smsg rest =>
      have ⟨hseq, hlt, hrest⟩ := hfits
      simp only [StreamFeed.deliver, StreamQueue.deliverFromStorage]
      split
      · have hroom : sc.offset + 1 ≠ 0 := by grind
        refine ⟨?_, hseq.symm, hseq ▸ hlt, hseq ▸ hrest⟩
        change Numbered start (smsg.seq + 1) (received ++ (sc.buffer ++ [_]))
        rw [← append_assoc, hseq]
        exact hsent.snoc rfl hroom
      · exact h
  | moving sequence rest => exact ⟨hsent, hfits.2.2⟩
  | returned => exact h

end Tracks

structure Numbering (s : StreamFeed) : Prop where
  unused : ∀ ch, s.queue.made ≤ ch → s.queue.consumer ch = none
  readers : s.readers.length = s.queue.made

theorem Numbering.step {action : Action} (h : s.Numbering) (heffect : Effect s action s') :
    s'.Numbering := by
  cases heffect with
  | refused => exact ⟨h.unused, h.readers⟩
  | published =>
    refine ⟨fun ch hch => ?_, h.readers⟩
    rw [StreamQueue.consumer_appended, h.unused ch hch, Option.map_none]
  | subscribed =>
    refine ⟨fun ch hch => ?_, ?_⟩
    · have hlt : s.queue.made < ch := hch
      rw [StreamQueue.consumer_subscribe, h.unused ch hlt.le, if_neg hlt.ne, Option.or_none]
    · rw [length_append, h.readers]
      rfl
  | moved hsc hreader hturn =>
    refine ⟨fun ch hch => ?_, ?_⟩
    · rw [StreamQueue.consumer_setConsumer, h.unused ch hch, Option.map_none]
    · rw [length_set]
      exact h.readers
  | idle => exact h

/-- The consumer of the channel has been sent the numbers from `start` on. -/
def Follows (start : UInt64) (ch : Nat) (s : StreamFeed) : Prop :=
  ∃ sc reader, s.queue.consumer ch = some sc ∧ s.readers[ch]? = some reader ∧
    Tracks start s.queue.nextSeq sc reader

theorem Follows.step {start : UInt64} {action : Action} (h : s.Follows start ch)
    (hstart : start ≠ 0) (hcomplete : s.Complete) (hguard : hasRoom s action)
    (heffect : Effect s action s') : s'.Follows start ch := by
  have ⟨sc, reader, hsc, hreader, htracks⟩ := h
  cases heffect with
  | refused => exact h
  | @published msg =>
    let numbered : Message := { msg with sequence := s.queue.nextSeq }
    have hnotified : Tracks start (s.queue.nextSeq + 1) (sc.notify numbered) reader :=
      htracks.notify rfl hguard
    refine ⟨sc.notify numbered, reader, ?_, hreader, hnotified⟩
    rw [StreamQueue.consumer_appended, hsc, Option.map_some]
  | subscribed =>
    refine ⟨sc, reader, ?_, ?_, htracks⟩
    · rw [StreamQueue.consumer_subscribe, hsc, Option.some_or]
    · rw [getElem?_append_left (List.getElem?_eq_some_iff.mp hreader).1, hreader]
  | @moved _ other _ _ turn hsc' hreader' hturn =>
    have hch : turn.1.ch = other := (turn_ch hturn).trans (StreamQueue.consumer_ch hsc')
    by_cases hsame : other = ch
    · subst hsame
      cases hsc.symm.trans hsc'
      cases hreader.symm.trans hreader'
      refine ⟨turn.1, turn.2.1, StreamQueue.consumer_setConsumer_self hsc hch,
        getElem?_set_self (List.getElem?_eq_some_iff.mp hreader).1, ?_⟩
      rcases hturn with rfl | rfl
      · exact htracks.deliver hcomplete hstart
      · exact htracks.receive s.disk
    · refine ⟨sc, reader, ?_, ?_, htracks⟩
      · rw [StreamQueue.consumer_setConsumer_other (hch ▸ hsame), hsc]
      · rw [getElem?_set_ne hsame, hreader]
  | idle => exact h

theorem Follows.subscribed (h : s.Numbering) (group : String) (startOffset : UInt64) :
    (s.act (.subscribe group startOffset)).Follows
      (if startOffset = 0 then s.queue.nextSeq else startOffset) s.queue.made := by
  let first := if startOffset = 0 then s.queue.nextSeq else startOffset
  refine ⟨⟨s.queue.made, group, first, []⟩, ⟨.subscribed startOffset, []⟩, ?_, ?_,
    ⟨⟨rfl, rfl⟩, trivial⟩⟩
  · rw [act, StreamQueue.consumer_subscribe, h.unused _ (Nat.le_refl _), if_pos rfl]
    rfl
  · rw [act, ← h.readers, getElem?_concat_length]

section Run
variable {start : StreamFeed} {history : List Action}

theorem Runs.numbering {guard : StreamFeed → Action → Prop} (hstart : start.Numbering)
    (run : Runs guard start history s) : s.Numbering :=
  run.invariant (fun _ s => s.Numbering) hstart fun h step => by
    cases step with
    | act action _ => exact h.step (act_effect action _)

theorem Runs.complete (hstart : start.Complete) (run : Runs hasRoom start history s) :
    s.Complete :=
  run.invariant (fun _ s => s.Complete) hstart fun h step => by
    cases step with
    | act action hguard => exact h.step hguard (act_effect action _)

theorem Runs.follows {first : UInt64} (hfirst : first ≠ 0) (hcomplete : start.Complete)
    (hstart : start.Follows first ch) (run : Runs hasRoom start history s) : s.Follows first ch := by
  have hinv := run.invariant (fun _ s => s.Complete ∧ s.Follows first ch) ⟨hcomplete, hstart⟩
    fun ⟨hcomplete, h⟩ step => by
      cases step with
      | act action hguard =>
        exact ⟨hcomplete.step hguard (act_effect action _),
          h.step hfirst hcomplete hguard (act_effect action _)⟩
  exact hinv.2

theorem complete_opened {name : String} {disk : Disk} {last : UInt64}
    (hpresent : disk.present = true) (hroom : last + 1 ≠ 0)
    (hstored : ∀ n, (∃ record ∈ disk.storage.streamRecords name, record.seq = n) ↔
      n ≠ 0 ∧ n ≤ last)
    (hread : ¬ disk.fails 0 ∨ last = 0) : (opened name disk).Complete := by
  have hdisk : (opened name disk).disk = disk.called disk.storage := by
    simp only [opened, StreamLog.opened, StreamLog.lastStored, if_pos hpresent, Disk.read_disk]
  have hlast : disk.storage.getStreamSequence name = last := by
    refine UInt64.le_antisymm (Storage.getStreamSequence_le fun record hmem => ?_) ?_
    · exact ((hstored record.seq).mp ⟨record, hmem, rfl⟩).2
    · by_cases hzero : last = 0
      · rw [hzero]
        exact UInt64.zero_le
      · obtain ⟨record, hmem, hseq⟩ := (hstored last).mpr ⟨hzero, UInt64.le_refl last⟩
        exact hseq ▸ Storage.le_getStreamSequence hmem
  have hnext : (opened name disk).queue.nextSeq = last + 1 := by
    have hopen : StreamLog.lastStored name disk = disk.read (Storage.getStreamSequence name) :=
      if_pos hpresent
    cases hresult : (StreamLog.lastStored name disk).1 with
    | error err =>
      have hfails : disk.fails 0 := by
        refine ⟨hpresent, fun hnone => ?_⟩
        simp only [hopen, Disk.read, hnone] at hresult
        cases hresult
      rw [hread.resolve_left (not_not_intro hfails)]
      exact StreamLog.opened_nextSeq_failed hresult
    | ok seq =>
      have hseq : seq = last := (Disk.read_ok (hopen ▸ hresult)).trans hlast
      exact hseq ▸ StreamLog.opened_nextSeq hresult
  refine ⟨?_, hnext ▸ hroom, fun n => ?_⟩
  · rw [hdisk]
    exact hpresent
  · rw [hnext, hdisk]
    refine (hstored n).trans ?_
    grind

theorem numbering_opened (name : String) (disk : Disk) : (opened name disk).Numbering :=
  ⟨fun _ _ => rfl, rfl⟩

theorem Follows.sent {first : UInt64} (h : s.Follows first ch) :
    (s.sent ch).map (·.sequence.toNat) = List.range' first.toNat (s.sent ch).length := by
  have ⟨sc, reader, hsc, hreader, htracks⟩ := h
  simp only [StreamFeed.sent, hsc, hreader]
  exact htracks.sent.numbers

/-- Whatever the interleaving, a consumer is sent the numbers from its offset on, each once
and in turn. -/
theorem Runs.sent_in_turn {name : String} {disk : Disk} {before after : List Action}
    (hcomplete : (opened name disk).Complete) (hbefore : Runs hasRoom (opened name disk) before s)
    (group : String) (startOffset : UInt64)
    (hafter : Runs hasRoom (s.act (.subscribe group startOffset)) after s') :
    (s'.sent (s.queue.subscribe group startOffset).2).map (·.sequence.toNat) =
      List.range' (if startOffset = 0 then s.queue.nextSeq else startOffset).toNat
        (s'.sent (s.queue.subscribe group startOffset).2).length := by
  have hmiddle := hbefore.complete hcomplete
  have hfirst : (if startOffset = 0 then s.queue.nextSeq else startOffset) ≠ 0 := by
    split
    · exact hmiddle.positive
    · assumption
  have hsubscribed : (s.act (.subscribe group startOffset)).Complete :=
    hmiddle.of_called rfl rfl (.inl rfl)
  have hnumbering := hbefore.numbering (numbering_opened name disk)
  exact (hafter.follows hfirst hsubscribed (.subscribed hnumbering group startOffset)).sent

end Run

private def event : Message := ⟨"a", "events", [0], ∅, 0, 0, 0, "", 0⟩

private def fresh : Disk := ⟨true, Storage.empty, fun _ => none⟩

private def caughtUp : StreamFeed := (opened "events" fresh).act (.publish event)

/-- A message sent from the storage, and one that the publisher hands over while the loop
has not ended. -/
theorem sent_in_turn_handover : ∃ s', Runs hasRoom (caughtUp.act (.subscribe "g" 1))
    [.deliver 0, .deliver 0, .deliver 0, .deliver 0, .deliver 0, .publish event] s' ∧
    (s'.sent 0).map (·.sequence.toNat) = [1, 2] := by
  have hnone (n : UInt64) : (∃ record ∈ fresh.storage.streamRecords "events", record.seq = n) ↔
      n ≠ 0 ∧ n ≤ 0 := by
    constructor
    · rintro ⟨_, hmem, _⟩
      exact absurd hmem List.not_mem_nil
    · grind
  have hcomplete : (opened "events" fresh).Complete :=
    complete_opened rfl (by decide) hnone (.inr rfl)
  have hbefore : Runs hasRoom (opened "events" fresh) [.publish event] caughtUp :=
    Run.start.next (.act (.publish event) (show (2 : UInt64) ≠ 0 by decide))
  have hstart : Runs hasRoom (caughtUp.act (.subscribe "g" 1)) [] _ := .start
  have hsent := ((((hstart.next (.act (.deliver 0) trivial)).next (.act (.deliver 0) trivial)).next
    (.act (.deliver 0) trivial)).next (.act (.deliver 0) trivial)).next (.act (.deliver 0) trivial)
  have hafter := hsent.next (.act (.publish event) (show (3 : UInt64) ≠ 0 by decide))
  exact ⟨_, hafter, Runs.sent_in_turn hcomplete hbefore "g" 1 hafter⟩

end StreamFeed

end QwerQ
