import QwerQ.Stream.Delivery

/-! Whether a consumer that is behind the tail can still catch up. The publisher passes a
full channel over and leaves the rest to the loop of `deliverFromStorage`, which may
have ended. -/
namespace QwerQ
open List

/-- The goroutine looks at the offset again, or `Subscribe` is about to start it. -/
def StreamDelivery.Attends (nextSeq : UInt64) : StreamDelivery → Prop
  | .subscribed startOffset => 0 < startOffset ∧ startOffset < nextSeq
  | .returned => False
  | _ => True

/-- The next step does not end the loop below the tail. -/
def StreamDelivery.Proceeds (sq : StreamQueue) (disk : Disk) : StreamDelivery → Prop
  | .checking => disk.present = true
  | .loading currentOffset => disk.faults 0 = none ∧
      disk.storage.loadStreamMessages sq.name currentOffset StreamQueue.deliveryBatch ≠ []
  | _ => True

theorem StreamDelivery.Attends.mono {tail tail' : UInt64} {delivery : StreamDelivery}
    (h : delivery.Attends tail) (hle : tail ≤ tail') : delivery.Attends tail' := by
  cases delivery with
  | subscribed startOffset =>
    have ⟨hpositive, hlt⟩ := h
    exact ⟨hpositive, by grind⟩
  | returned => exact h
  | checking | loading | sending | moving => trivial

namespace StreamFeed
variable {s : StreamFeed}

def Attended (sc : StreamConsumer) (s : StreamFeed) : Prop :=
  ∃ reader, s.readers[sc.ch]? = some reader ∧ reader.delivery.Attends s.queue.nextSeq

def NoneStranded (s : StreamFeed) : Prop :=
  ∀ sc ∈ s.queue.consumers, sc.offset < s.queue.nextSeq → s.Attended sc

/-- No message is stored that a full channel at the tail has to miss for good, and no loop
ends below the tail, for want of a storage or of an answer from it. -/
def keepsUp (s : StreamFeed) : Action → Prop
  | .publish _ => s.disk.fails 0 ∨ s.queue.nextSeq + 1 = 0 ∨
      ∀ sc ∈ s.queue.consumers, sc.offset = s.queue.nextSeq → streamBuffer ≤ sc.buffer.length →
        ∃ reader, s.readers[sc.ch]? = some reader ∧
          reader.delivery.Attends (s.queue.nextSeq + 1)
  | .deliver ch => ∀ sc reader, s.queue.consumer ch = some sc → s.readers[ch]? = some reader →
      sc.offset < s.queue.nextSeq → reader.delivery.Proceeds s.queue s.disk
  | .subscribe _ _ | .receive _ => True

section Consumer
variable {queue : StreamQueue} {disk : Disk} {sc : StreamConsumer} {reader : StreamReader}

theorem deliver_attends_iff
    (h : sc.offset < queue.nextSeq → reader.delivery.Attends queue.nextSeq) :
    ((deliver queue disk sc reader).1.offset < queue.nextSeq →
      (deliver queue disk sc reader).2.1.delivery.Attends queue.nextSeq) ↔
      (sc.offset < queue.nextSeq → reader.delivery.Proceeds queue disk) := by
  obtain ⟨delivery, received⟩ := reader
  cases delivery with
  | subscribed startOffset =>
    refine iff_of_true (fun hbelow => ?_) fun _ => trivial
    have hstarts : 0 < startOffset ∧ startOffset < queue.nextSeq := h hbelow
    simp only [deliver, StreamQueue.deliverFromStorage, if_pos hstarts]
    trivial
  | checking =>
    simp only [deliver, StreamQueue.deliverFromStorage]
    split
    · rename_i hends
      refine forall_congr' fun hbelow => ?_
      change False ↔ disk.present = true
      grind
    · rename_i hgoes
      refine forall_congr' fun hbelow => iff_of_true trivial ?_
      change disk.present = true
      grind
  | loading currentOffset =>
    simp only [deliver, StreamQueue.deliverFromStorage, Disk.read]
    cases hfault : disk.faults 0 with
    | some text =>
      refine forall_congr' fun hbelow => iff_of_false id fun hgoes => ?_
      have hok : disk.faults 0 = none := hgoes.1
      rw [hfault] at hok
      cases hok
    | none =>
      cases hload : disk.storage.loadStreamMessages queue.name currentOffset
          StreamQueue.deliveryBatch with
      | nil => exact forall_congr' fun hbelow => iff_of_false id fun hgoes => hgoes.2 hload
      | cons first rest =>
        have hmore : disk.storage.loadStreamMessages queue.name currentOffset
            StreamQueue.deliveryBatch ≠ [] := hload ▸ cons_ne_nil first rest
        exact iff_of_true (fun _ => trivial) fun _ => ⟨hfault, hmore⟩
  | sending msgs =>
    refine iff_of_true (fun _ => ?_) fun _ => trivial
    cases msgs with
    | nil => trivial
    | cons smsg rest =>
      simp only [deliver, StreamQueue.deliverFromStorage]
      split <;> trivial
  | moving sequence rest => exact iff_of_true (fun _ => trivial) fun _ => trivial
  | returned => exact iff_of_true h fun _ => trivial

theorem receive_offset : (receive disk sc reader).1.offset = sc.offset ∧
    (receive disk sc reader).2.1.delivery = reader.delivery := by
  unfold receive
  split <;> exact ⟨rfl, rfl⟩

end Consumer

theorem NoneStranded.moved_iff {ch : Nat} {sc : StreamConsumer} {reader : StreamReader}
    {turn : StreamConsumer × StreamReader × Disk} (h : s.NoneStranded)
    (hsc : s.queue.consumer ch = some sc) (hreader : s.readers[ch]? = some reader)
    (hturn : turn = deliver s.queue s.disk sc reader ∨ turn = receive s.disk sc reader) :
    NoneStranded ⟨s.queue.setConsumer turn.1, turn.2.2, s.readers.set ch turn.2.1⟩ ↔
      (turn.1.offset < s.queue.nextSeq → turn.2.1.delivery.Attends s.queue.nextSeq) := by
  have hold : sc.ch = ch := StreamQueue.consumer_ch hsc
  have hnew : turn.1.ch = ch := (turn_ch hturn).trans hold
  have hset : (s.readers.set ch turn.2.1)[ch]? = some turn.2.1 :=
    getElem?_set_self (List.getElem?_eq_some_iff.mp hreader).1
  constructor
  · intro hafter hbelow
    have hmem : turn.1 ∈ (s.queue.setConsumer turn.1).consumers :=
      mem_map.mpr ⟨sc, mem_of_find?_eq_some hsc, if_pos (hold.trans hnew.symm)⟩
    have ⟨reader', hreader', hattends⟩ := hafter turn.1 hmem hbelow
    rw [hnew, hset] at hreader'
    cases hreader'
    exact hattends
  · intro hone other hmem hbelow
    have ⟨before, hbefore, hother⟩ := mem_map.mp hmem
    split at hother
    · subst hother
      exact ⟨turn.2.1, hnew ▸ hset, hone hbelow⟩
    · rename_i hne
      subst hother
      have ⟨reader', hreader', hattends⟩ := h before hbefore hbelow
      refine ⟨reader', ?_, hattends⟩
      rw [getElem?_set_ne fun heq => hne (heq.symm.trans hnew.symm), hreader']

/-- Only a consumer at the tail can fall behind it, if its channel is full. -/
theorem NoneStranded.published_iff (h : s.NoneStranded) (msg : Message)
    (hroom : s.queue.nextSeq + 1 ≠ 0) (disk : Disk) :
    NoneStranded ⟨s.queue.appended msg, disk, s.readers⟩ ↔
      ∀ sc ∈ s.queue.consumers, sc.offset = s.queue.nextSeq → streamBuffer ≤ sc.buffer.length →
        ∃ reader, s.readers[sc.ch]? = some reader ∧
          reader.delivery.Attends (s.queue.nextSeq + 1) := by
  constructor
  · intro hafter sc hmem htail hfull
    have hnotified : sc.notify { msg with sequence := s.queue.nextSeq } = sc :=
      if_neg fun hpushed => absurd hpushed.2 (Nat.not_lt.mpr hfull)
    have hmem' : sc ∈ (s.queue.appended msg).consumers := mem_map.mpr ⟨sc, hmem, hnotified⟩
    exact hafter sc hmem' (show sc.offset < s.queue.nextSeq + 1 by grind)
  · intro hfull other hmem hbelow
    have ⟨sc, hsc, hother⟩ := mem_map.mp hmem
    have hlt : other.offset < s.queue.nextSeq + 1 := hbelow
    rw [Attended, ← hother, StreamQueue.notify_ch]
    unfold StreamConsumer.notify at hother
    split at hother
    · subst hother
      change s.queue.nextSeq + 1 < s.queue.nextSeq + 1 at hlt
      grind
    · rename_i hpassed
      subst hother
      by_cases htail : sc.offset = s.queue.nextSeq
      · exact hfull sc hsc htail (Nat.not_lt.mp fun hspace => hpassed ⟨htail, hspace⟩)
      · have ⟨reader, hreader, hattends⟩ := h sc hsc (by grind)
        exact ⟨reader, hreader, hattends.mono (show _ ≤ s.queue.nextSeq + 1 by grind)⟩

theorem NoneStranded.subscribed (h : s.NoneStranded) (hnumbering : s.Numbering) (group : String)
    (startOffset : UInt64) : (s.act (.subscribe group startOffset)).NoneStranded := by
  intro sc hmem hbelow
  rcases mem_append.mp hmem with hold | hnew
  · have ⟨reader, hreader, hattends⟩ := h sc hold hbelow
    refine ⟨reader, ?_, hattends⟩
    rw [act, getElem?_append_left (List.getElem?_eq_some_iff.mp hreader).1, hreader]
  · rw [mem_singleton.mp hnew] at hbelow ⊢
    refine ⟨⟨.subscribed startOffset, []⟩, ?_, ?_⟩
    · rw [act, ← hnumbering.readers, getElem?_concat_length]
    · change (if startOffset = 0 then s.queue.nextSeq else startOffset) < s.queue.nextSeq at hbelow
      change 0 < startOffset ∧ startOffset < s.queue.nextSeq
      grind

theorem NoneStranded.attends {ch : Nat} {sc : StreamConsumer} {reader : StreamReader}
    (h : s.NoneStranded) (hsc : s.queue.consumer ch = some sc)
    (hreader : s.readers[ch]? = some reader) (hbelow : sc.offset < s.queue.nextSeq) :
    reader.delivery.Attends s.queue.nextSeq := by
  have ⟨reader', hreader', hattends⟩ := h sc (mem_of_find?_eq_some hsc) hbelow
  rw [StreamQueue.consumer_ch hsc, hreader] at hreader'
  cases hreader'
  exact hattends

theorem noneStranded_act_iff (hnumbering : s.Numbering) (h : s.NoneStranded) (action : Action) :
    (s.act action).NoneStranded ↔ s.keepsUp action := by
  cases action with
  | publish msg =>
    by_cases hfails : s.disk.fails 0
    · have ⟨err, hpublish⟩ := s.queue.publish_of_fails msg hfails
      simp only [act, hpublish]
      exact iff_of_true h (.inl hfails)
    · simp only [act, s.queue.publish_of_not_fails msg hfails]
      by_cases hroom : s.queue.nextSeq + 1 = 0
      · refine iff_of_true (fun sc _ hbelow => ?_) (.inr (.inl hroom))
        change sc.offset < s.queue.nextSeq + 1 at hbelow
        rw [hroom] at hbelow
        exact absurd hbelow UInt64.not_lt_zero
      · rw [h.published_iff msg hroom, keepsUp, or_iff_right hfails, or_iff_right hroom]
  | subscribe group startOffset =>
    exact iff_of_true (h.subscribed hnumbering group startOffset) trivial
  | deliver ch =>
    simp only [act, atReader]
    split
    · rename_i sc reader hsc hreader
      rw [h.moved_iff hsc hreader (.inl rfl), deliver_attends_iff (h.attends hsc hreader)]
      simp [keepsUp, hsc, hreader]
    · rename_i hmissing
      exact iff_of_true h fun sc reader hsc hreader => absurd hreader (hmissing sc reader hsc)
  | receive ch =>
    refine iff_of_true ?_ trivial
    simp only [act, atReader]
    split
    · rename_i sc reader hsc hreader
      rw [h.moved_iff hsc hreader (.inr rfl), receive_offset.1, receive_offset.2]
      exact h.attends hsc hreader
    · exact h

/-- While every step keeps up no consumer is stranded, and the first step that does not
strands one. -/
theorem Runs.none_stranded {name : String} {disk : Disk} {history : List Action}
    (run : Runs keepsUp (opened name disk) history s) :
    s.NoneStranded ∧ ∀ action, (s.act action).NoneStranded ↔ s.keepsUp action := by
  have hinv := run.invariant (fun _ s => s.Numbering ∧ s.NoneStranded)
    ⟨numbering_opened name disk, nofun⟩ fun ⟨hnumbering, h⟩ step => by
      cases step with
      | act action hguard =>
        exact ⟨hnumbering.step (act_effect action _),
          (noneStranded_act_iff hnumbering h action).mpr hguard⟩
  exact ⟨hinv.2, noneStranded_act_iff hinv.1 hinv.2⟩

private def reading : Message := ⟨"a", "events", [0], ∅, 0, 0, 0, "", 0⟩

private def working : Disk := ⟨true, Storage.empty, fun _ => none⟩

/-- A consumer at the tail whose loop has ended, with `n` messages in its channel. -/
structure Filled (n : Nat) (s : StreamFeed) : Prop where
  sound : s.disk.Sound
  next : s.queue.nextSeq.toNat = n + 1
  readers : s.readers = [⟨.returned, []⟩]
  consumers : ∃ buffer, buffer.length = n ∧
    s.queue.consumers = [⟨0, "g", s.queue.nextSeq, buffer⟩]

theorem Filled.publish {n : Nat} (h : s.Filled n) (hn : n < streamBuffer) (msg : Message) :
    (s.act (.publish msg)).Filled (n + 1) := by
  have hsaves : ¬ s.disk.fails 0 := fun hfails => hfails.2 (by rw [h.sound.faults])
  have ⟨buffer, hlength, hconsumers⟩ := h.consumers
  have hroom : s.queue.nextSeq + 1 ≠ 0 := by
    have hlimit : streamBuffer = 100 := rfl
    have hnext := h.next
    intro hzero
    have hsum : (s.queue.nextSeq + 1).toNat = (s.queue.nextSeq.toNat + 1) % 2 ^ 64 :=
      UInt64.toNat_add s.queue.nextSeq 1
    rw [hzero, UInt64.toNat_zero] at hsum
    omega
  simp only [act, s.queue.publish_of_not_fails msg hsaves, Disk.wrote, h.sound.present, if_true]
  refine ⟨⟨h.sound.present, funext fun call => congrFun h.sound.faults (call + 1)⟩, ?_, h.readers,
    buffer ++ [{ msg with sequence := s.queue.nextSeq }], by simp [hlength], ?_⟩
  · change (s.queue.nextSeq + 1).toNat = _
    rw [toNat_next hroom, h.next]
  · simp only [StreamQueue.appended, hconsumers, map_singleton, StreamConsumer.notify, hlength,
      hn, and_self, if_true]

private theorem filled (n : Nat) (hn : n ≤ streamBuffer) : ∃ history s,
    Runs (fun _ _ => True) (opened "events" working) history s ∧ s.Numbering ∧ s.NoneStranded ∧
      s.Filled n := by
  induction n with
  | zero =>
    have run : Runs (fun _ _ => True) (opened "events" working) _ _ :=
      (Run.start.next (.act (.subscribe "g" 0) trivial)).next (.act (.deliver 0) trivial)
    refine ⟨_, _, run, run.numbering (numbering_opened _ _), ?_, ⟨rfl, rfl⟩, rfl, rfl, [], rfl, rfl⟩
    intro sc hmem hbelow
    rw [mem_singleton.mp hmem] at hbelow
    exact absurd hbelow (by decide)
  | succ n ih =>
    have ⟨history, s, run, hnumbering, hnone, h⟩ := ih (Nat.le_of_succ_le hn)
    have hnext := run.next (.act (.publish reading) trivial)
    refine ⟨_, _, hnext, hnumbering.step (act_effect _ _), ?_, h.publish hn reading⟩
    have ⟨buffer, hlength, hconsumers⟩ := h.consumers
    refine (noneStranded_act_iff hnumbering hnone _).mpr (.inr (.inr fun sc hmem _ hfull => ?_))
    rw [hconsumers, mem_singleton] at hmem
    rw [hmem, hlength] at hfull
    exact absurd hn (Nat.not_lt.mpr hfull)

/-- A consumer at the tail that is slow by more than its channel holds misses a message, and
nothing is left to deliver it. -/
theorem full_channel_strands : ∃ history s,
    Runs (fun _ _ => True) (opened "events" working) history s ∧ ¬ s.NoneStranded := by
  have ⟨history, s, run, hnumbering, hnone, h⟩ := filled streamBuffer (Nat.le_refl _)
  have ⟨buffer, hlength, hconsumers⟩ := h.consumers
  refine ⟨_, _, run.next (.act (.publish reading) trivial), fun hafter => ?_⟩
  rcases (noneStranded_act_iff hnumbering hnone _).mp hafter with hfails | hwrap | hattended
  · exact hfails.2 (by rw [h.sound.faults])
  · rw [show s.queue.nextSeq = 101 from UInt64.toNat_inj.mp h.next] at hwrap
    exact absurd hwrap (by decide)
  · have ⟨reader, hreader, hattends⟩ := hattended ⟨0, "g", s.queue.nextSeq, buffer⟩
      (hconsumers ▸ List.mem_singleton.mpr rfl) rfl (Nat.le_of_eq hlength.symm)
    rw [h.readers] at hreader
    cases hreader
    exact hattends

/-- A consumer behind the tail whose loop is about to load. -/
theorem none_stranded_behind : ∃ history s, Runs keepsUp (opened "events" working) history s ∧
    (∃ sc ∈ s.queue.consumers, sc.offset < s.queue.nextSeq) ∧ s.NoneStranded := by
  have first : Runs keepsUp (opened "events" working) _ _ :=
    Run.start.next (.act (.publish reading) (.inr (.inr (fun _ hmem => absurd hmem List.not_mem_nil))))
  have second := first.next (.act (.subscribe "g" 1) trivial)
  have third := second.next (.act (.deliver 0) (fun _ _ _ hreader _ => by cases hreader; trivial))
  have fourth := third.next (.act (.deliver 0) (fun _ _ _ hreader _ => by cases hreader; rfl))
  exact ⟨_, _, fourth, ⟨_, List.mem_singleton.mpr rfl, by decide⟩, (Runs.none_stranded fourth).1⟩

end StreamFeed

end QwerQ
