import QwerQ.Queue.Ledger

/-! Attempt numbers: what the number on a delivery says of the deliveries, the nacks
and the restarts before it. The counter of a message is kept in memory and stored by
a nack that requeues, so it is followed through both. -/
namespace QwerQ
open List

/-- What happens to the messages of one queue, from process to process. A message is
moved when it goes to a DLQ or comes back from one; it is put back when a retry of
its DLQ finds the queue full. -/
inductive Moment where
  | published (id : String)
  | delivered (id : String) (attempt : UInt32)
  | requeued (id : String) (attempt : UInt32)
  | putBack (id : String) (attempt : UInt32)
  | moved (id : String)
  | restarted
  deriving DecidableEq, Repr

namespace Moment

/-- The attempt of the last delivery in the running process, one moment later. -/
def deliveredThen (id : String) (last : Option UInt32) : Moment → Option UInt32
  | .delivered other attempt => if other = id then some attempt else last
  | .restarted => none
  | _ => last

def requeuedAs (id : String) : Moment → Option UInt32
  | .requeued other attempt => if other = id then some attempt else none
  | _ => none

def savedAs (id : String) : Moment → Option UInt32
  | .requeued other attempt => if other = id then some attempt else none
  | .putBack other attempt => if other = id then some attempt else none
  | _ => none

end Moment

variable {history : List Moment} {id : String} {attempt : UInt32}

def lastDelivered (id : String) (history : List Moment) : Option UInt32 :=
  history.foldl (Moment.deliveredThen id) none

def lastRequeued (id : String) (history : List Moment) : Option UInt32 :=
  (history.filterMap (Moment.requeuedAs id)).getLast?

def lastSaved (id : String) (history : List Moment) : Option UInt32 :=
  (history.filterMap (Moment.savedAs id)).getLast?

variable {moment other : Moment} {op : Queue.Op} {reports : List Queue.Event}

@[simp] theorem lastDelivered_concat (moment : Moment) :
    lastDelivered id (history ++ [moment]) = moment.deliveredThen id (lastDelivered id history) :=
  foldl_concat ..

@[simp] theorem lastSaved_concat (moment : Moment) :
    lastSaved id (history ++ [moment]) = (moment.savedAs id).or (lastSaved id history) := by
  rw [lastSaved, filterMap_append, getLast?_append]
  cases h : moment.savedAs id <;> simp [h, lastSaved]

theorem mem_of_lastDelivered (h : lastDelivered id history = some attempt) :
    .delivered id attempt ∈ history := by
  induction history using List.reverseRecOn with
  | nil => cases h
  | append_singleton history moment ih =>
    rw [lastDelivered_concat] at h
    cases moment with
    | delivered other number =>
      simp only [Moment.deliveredThen] at h
      split at h
      · rename_i hid
        cases h
        rw [hid]
        exact mem_append_right _ mem_cons_self
      · exact mem_append_left _ (ih h)
    | restarted => cases h
    | _ => exact mem_append_left _ (ih h)

theorem lastDelivered_eq_none (h : ∀ number, .delivered id number ∉ history) :
    lastDelivered id history = none := by
  cases hlast : lastDelivered id history with
  | none => rfl
  | some number => exact absurd (mem_of_lastDelivered hlast) (h number)

/-- Only nacks store a counter, unless the message was put back. -/
theorem lastSaved_eq_lastRequeued (h : ∀ number, .putBack id number ∉ history) :
    lastSaved id history = lastRequeued id history := by
  rw [lastSaved, lastRequeued]
  congr 1
  apply filterMap_congr
  intro moment hmem
  cases moment with
  | putBack other number =>
    have hne : other ≠ id := by
      intro heq
      exact h number (heq ▸ hmem)
    simp [Moment.savedAs, Moment.requeuedAs, hne]
  | _ => rfl

/-- The attempts of a message that the running process knows of. -/
def counted (id : String) (history : List Moment) : UInt32 :=
  (lastDelivered id history).getD ((lastSaved id history).getD 0)

theorem counted_of_delivered (h : lastDelivered id history = some attempt) :
    counted id history = attempt := by
  rw [counted, h]
  rfl

theorem counted_of_undelivered (h : lastDelivered id history = none) :
    counted id history = (lastSaved id history).getD 0 := by
  rw [counted, h]
  rfl

/-- What the number on a delivery should say of the moments before it. -/
structure Numbered (before : List Moment) (id : String) (attempt : UInt32) : Prop where
  first : (∀ number, .delivered id number ∉ before) → attempt = 1
  next : ∀ previous, lastDelivered id before = some previous → attempt = previous + 1
  again : lastDelivered id before = none → attempt = (lastRequeued id before).getD 0 + 1

/-- What it does say: it goes by the counter, in memory or stored. -/
structure Tallied (before : List Moment) (id : String) (attempt : UInt32) : Prop where
  first : (∀ number, .delivered id number ∉ before) → attempt = 1
  tally : attempt = counted id before + 1

theorem Tallied.next {previous : UInt32} (h : Tallied history id attempt)
    (hlast : lastDelivered id history = some previous) : attempt = previous + 1 := by
  rw [h.tally, counted_of_delivered hlast]

/-- The two differ after a restart, where the counter stored last is not that of a nack. -/
theorem Tallied.numbered_iff (h : Tallied history id attempt) :
    Numbered history id attempt ↔ (lastDelivered id history = none →
      (lastSaved id history).getD 0 = (lastRequeued id history).getD 0) := by
  constructor
  · intro hnumbered hnone
    have hagain := hnumbered.again hnone
    rw [h.tally, counted_of_undelivered hnone] at hagain
    exact add_right_cancel hagain
  · intro hsaved
    refine ⟨h.first, fun _ => h.next, fun hnone => ?_⟩
    rw [h.tally, counted_of_undelivered hnone, hsaved hnone]

def Truthful (before : List Moment) : Moment → Prop
  | .delivered id attempt => .moved id ∉ before → Tallied before id attempt
  | _ => True

theorem mem_snoc (h : other ∈ history) : other ∈ history ++ [moment] :=
  mem_append_left _ h

theorem unmoved (h : .moved id ∉ history ++ [moment]) : .moved id ∉ history :=
  fun hold => h (mem_snoc hold)

/-- The counters of a queue's messages and of their records, as far as the messages
were never moved. -/
structure Counts (history : List Moment) (q : Queue) (record : String → Option UInt32) : Prop where
  truthful : AtEach Truthful history
  known : ∀ id number, .delivered id number ∈ history →
    .moved id ∈ history ∨ .published id ∈ history
  unsent : ∀ id, .moved id ∉ history → (∀ number, .delivered id number ∉ history) →
    (lastSaved id history).getD 0 = 0
  live : ∀ msg ∈ q.live, .moved msg.id ∉ history →
    .published msg.id ∈ history ∧ msg.attempt = counted msg.id history
  flying : ∀ msg ∈ q.inFlight.entries, .moved msg.id ∉ history →
    lastDelivered msg.id history = some msg.attempt
  alone : ∀ id, .moved id ∉ history → q.ledger.countP (fun body => body.id = id) ≤ 1
  stored : ∀ id attempt, record id = some attempt → .moved id ∉ history →
    .published id ∈ history ∧ attempt = (lastSaved id history).getD 0

namespace Counts
variable {q q' : Queue} {record record' : String → Option UInt32} {msg : Message}

theorem tallied (h : Counts history q record) (hmsg : msg ∈ q.live)
    (hmoved : .moved msg.id ∉ history) : Tallied history msg.id (msg.attempt + 1) where
  first := by
    intro hnever
    have hnone := lastDelivered_eq_none hnever
    rw [(h.live msg hmsg hmoved).2, counted_of_undelivered hnone, h.unsent msg.id hmoved hnever]
    rfl
  tally := by rw [(h.live msg hmsg hmoved).2]

theorem head_alone {rest : List Message} (h : Counts history q record)
    (hhead : q.messages = msg :: rest) (hmoved : .moved msg.id ∉ history) :
    ∀ other ∈ rest, other.id ≠ msg.id := by
  intro other hother heq
  have hone := h.alone msg.id hmoved
  rw [Queue.ledger_eq, hhead, map_cons, cons_append, countP_cons_of_pos (by simp),
    countP_append] at hone
  have hmore : 0 < (rest.map Message.body).countP fun body => decide (body.id = msg.id) :=
    countP_pos_iff.mpr ⟨other.body, mem_map_of_mem hother, decide_eq_true heq⟩
  omega

theorem sameLedger (h : Counts history q record) (hsame : Queue.SameLedger q q') :
    Counts history q' record where
  truthful := h.truthful
  known := h.known
  unsent := h.unsent
  live := by rw [Queue.live, hsame.messages, hsame.inFlight]; exact h.live
  flying := by rw [hsame.inFlight]; exact h.flying
  alone := by rw [Queue.ledger_congr hsame.messages hsame.inFlight]; exact h.alone
  stored := h.stored

theorem records (h : Counts history q record)
    (hrecord : ∀ id attempt, record' id = some attempt → .moved id ∉ history →
      record id = some attempt ∨
        .published id ∈ history ∧ attempt = (lastSaved id history).getD 0) :
    Counts history q record' where
  truthful := h.truthful
  known := h.known
  unsent := h.unsent
  live := h.live
  flying := h.flying
  alone := h.alone
  stored := by
    intro id attempt hfound hmoved
    rcases hrecord id attempt hfound hmoved with hold | hnew
    · exact h.stored id attempt hold hmoved
    · exact hnew

theorem change (h : Counts history q record)
    (hop : op.message? = none) (hchange : Queue.Change op q reports q') :
    Counts history q' record where
  truthful := h.truthful
  known := h.known
  unsent := h.unsent
  live := by
    intro msg hmsg hmoved
    rcases hchange.mem_live hmsg with ⟨_, haccepts⟩ | ⟨old, hold, hbody, hattempt⟩
    · rw [hop] at haccepts
      cases haccepts
    · have hid : msg.id = old.id := congrArg Body.id hbody
      rw [hid] at hmoved ⊢
      rw [hattempt]
      exact h.live old hold hmoved
  flying := by
    intro msg hmsg hmoved
    have ⟨old, hold, hid, hattempt⟩ := hchange.mem_inFlight hmsg
    rw [hid] at hmoved ⊢
    rw [hattempt]
    exact h.flying old hold hmoved
  alone := by
    intro id hmoved
    exact ((hchange.ledger_subperm hop).countP_le _).trans (h.alone id hmoved)
  stored := h.stored

theorem accept (h : Counts history q record)
    (hnew : .moved msg.id ∉ history → .published msg.id ∈ history ∧
      msg.id ∉ q.live.map Message.id ∧ msg.attempt = counted msg.id history) :
    Counts history { q with messages := q.messages ++ [msg] } record where
  truthful := h.truthful
  known := h.known
  unsent := h.unsent
  live := by
    intro other hother hmoved
    simp only [Queue.live, mem_append, mem_singleton] at hother
    rcases hother with (hwaits | rfl) | hflies
    · exact h.live other (mem_append_left _ hwaits) hmoved
    · exact ⟨(hnew hmoved).1, (hnew hmoved).2.2⟩
    · exact h.live other (mem_append_right _ hflies) hmoved
  flying := h.flying
  alone := by
    intro id hmoved
    rw [(Queue.accept_ledger q msg).countP_eq, countP_cons]
    split
    · rename_i hid
      obtain rfl : msg.id = id := of_decide_eq_true hid
      have hfree := (hnew hmoved).2.1
      have hnone : q.ledger.countP (fun body => body.id = msg.id) = 0 := by
        rw [countP_eq_zero]
        intro body hbody heq
        rw [← Queue.ledger_ids] at hfree
        exact hfree (mem_map.mpr ⟨body, hbody, by simpa using heq⟩)
      omega
    · exact h.alone id hmoved
  stored := h.stored

theorem handOut {c : Consumer} {now : Time} {rest : List Message} (h : Counts history q record)
    (hhead : q.messages = msg :: rest) :
    Counts (history ++ [.delivered msg.id (msg.attempt + 1)]) (q.handOut c now msg rest) record := by
  have hmsg : msg ∈ q.live := by
    rw [Queue.live, hhead]
    exact mem_cons_self
  have hdelivered {id : String} (hne : id ≠ msg.id) :
      lastDelivered id (history ++ [.delivered msg.id (msg.attempt + 1)]) =
        lastDelivered id history := by
    rw [lastDelivered_concat, Moment.deliveredThen, if_neg hne.symm]
  have hcounted {id : String} (hne : id ≠ msg.id) :
      counted id (history ++ [.delivered msg.id (msg.attempt + 1)]) = counted id history := by
    rw [counted, hdelivered hne, lastSaved_concat]
    rfl
  have hself : lastDelivered msg.id (history ++ [.delivered msg.id (msg.attempt + 1)]) =
      some (msg.attempt + 1) := by
    rw [lastDelivered_concat, Moment.deliveredThen, if_pos rfl]
  refine ⟨?_, ?_, ?_, ?_, ?_, ?_, ?_⟩
  · exact h.truthful.snoc fun hfree => h.tallied hmsg hfree
  · intro id number hsend
    rcases mem_append.mp hsend with hold | hnew
    · exact (h.known id number hold).imp mem_snoc mem_snoc
    · cases mem_singleton.mp hnew
      by_cases hfree : .moved msg.id ∈ history
      · exact .inl (mem_snoc hfree)
      · exact .inr (mem_snoc (h.live msg hmsg hfree).1)
  · intro id hfree hnever
    rw [lastSaved_concat]
    exact h.unsent id (unmoved hfree) fun number hold => hnever number (mem_snoc hold)
  · intro other hother hfree
    have hkept (hne : other.id ≠ msg.id) (hold : other ∈ q.live) :
        .published other.id ∈ history ++ [.delivered msg.id (msg.attempt + 1)] ∧
          other.attempt = counted other.id (history ++ [.delivered msg.id (msg.attempt + 1)]) := by
      obtain ⟨hpublished, hattempt⟩ := h.live other hold (unmoved hfree)
      exact ⟨mem_snoc hpublished, by rw [hcounted hne, hattempt]⟩
    simp only [Queue.live, Queue.handOut, mem_append, KeyedMap.mem_entries_insert] at hother
    rcases hother with hwaits | ⟨hflies, hne⟩ | rfl
    · have hne : other.id ≠ msg.id := by
        intro heq
        exact h.head_alone hhead (heq ▸ unmoved hfree) other hwaits heq
      refine hkept hne (mem_append_left _ ?_)
      rw [hhead]
      exact mem_cons_of_mem _ hwaits
    · exact hkept hne (mem_append_right _ hflies)
    · exact ⟨mem_snoc (h.live msg hmsg (unmoved hfree)).1, (counted_of_delivered hself).symm⟩
  · intro other hother hfree
    rcases KeyedMap.mem_entries_insert.mp hother with ⟨hflies, hne⟩ | rfl
    · rw [hdelivered hne]
      exact h.flying other hflies (unmoved hfree)
    · exact hself
  · intro id hfree
    exact ((Queue.handOut_subperm hhead).countP_le _).trans (h.alone id (unmoved hfree))
  · intro id attempt hfound hfree
    obtain ⟨hpublished, hattempt⟩ := h.stored id attempt hfound (unmoved hfree)
    rw [lastSaved_concat]
    exact ⟨mem_snoc hpublished, hattempt⟩

end Counts

def Queue.told (seen : Nat) (q : Queue) : List Moment :=
  (q.sent.drop seen).map fun delivery => .delivered delivery.msg.id delivery.msg.attempt

theorem Queue.told_length (q : Queue) : q.told q.sent.length = [] := by
  rw [told, drop_length, map_nil]

theorem Queue.Splits.told {q q' : Queue} {seen : Nat}
    (h : Queue.Splits op q reports q') (hseen : seen ≤ q.sent.length) :
    q'.told seen = q.told seen ++ q'.told q.sent.length := by
  rw [Queue.told, h.sent, drop_append_of_le_length hseen, map_append]
  rfl

namespace Counts
variable {q q' : Queue} {record record' : String → Option UInt32} {msg : Message}

theorem splits
    (hchange : ∀ {q'}, Queue.Change op q reports q' → Counts history q' record)
    (hsplits : Queue.Splits op q reports q') :
    Counts (history ++ q'.told q.sent.length) q' record := by
  let told : Queue.Event → Option Moment := fun
    | .sent delivery => some (.delivered delivery.msg.id delivery.msg.attempt)
    | _ => none
  have hreports {q' : Queue} (h : Queue.Change op q reports q') : reports.filterMap told = [] := by
    rw [filterMap_eq_nil_iff]
    intro event hevent
    cases event with
    | sent delivery => exact absurd hevent (h.sends_nothing delivery)
    | _ => rfl
  have hafter := hsplits.invariant
    (fun events q => Counts (history ++ events.filterMap told) q record)
    (fun hsame h => h.sameLedger hsame) (fun hhead _ _ h => ?_) [] ?_
  · have ⟨_, _, _, _, hchanged, _, _⟩ := hsplits
    rw [nil_append, filterMap_append, hreports hchanged, nil_append,
      filterMap_map] at hafter
    rw [Queue.told, ← Queue.newSends]
    exact filterMap_eq_map ▸ hafter
  · rw [filterMap_append, ← append_assoc]
    exact h.handOut hhead
  · intro q' hchanged
    rw [nil_append, hreports hchanged, append_nil]
    exact hchange hchanged

end Counts

def Moment.Marks (moment : Moment) : Prop := (∃ id, moment = .published id) ∨ ∃ id, moment = .moved id

section Marks
variable {before after : List Moment} (hmarks : moment.Marks)
include hmarks

theorem lastDelivered_mark (id : String) :
    lastDelivered id (before ++ moment :: after) = lastDelivered id (before ++ after) := by
  rw [lastDelivered, lastDelivered, foldl_append, foldl_append, foldl_cons]
  rcases hmarks with ⟨_, rfl⟩ | ⟨_, rfl⟩ <;> rfl

theorem lastSaved_mark (id : String) :
    lastSaved id (before ++ moment :: after) = lastSaved id (before ++ after) := by
  rw [lastSaved, lastSaved, filterMap_append, filterMap_append]
  rcases hmarks with ⟨_, rfl⟩ | ⟨_, rfl⟩ <;> rfl

theorem counted_mark (id : String) :
    counted id (before ++ moment :: after) = counted id (before ++ after) := by
  rw [counted, lastDelivered_mark hmarks, lastSaved_mark hmarks, counted]

omit hmarks in
theorem mem_mark (h : other ∈ before ++ after) : other ∈ before ++ moment :: after := by
  rw [mem_append, mem_cons]
  exact (mem_append.mp h).imp_right .inr

theorem delivered_mem_mark {number : UInt32} (h : .delivered id number ∈ before ++ moment :: after) :
    .delivered id number ∈ before ++ after := by
  rcases hmarks with ⟨_, rfl⟩ | ⟨_, rfl⟩ <;> simpa using h

theorem Truthful.mark (h : Truthful (before ++ after) other) :
    Truthful (before ++ moment :: after) other := by
  cases other with
  | delivered id attempt =>
    intro hfree
    have htallied := h fun hold => hfree (mem_mark hold)
    refine ⟨fun hnever => ?_, ?_⟩
    · exact htallied.first fun number hold => hnever number (mem_mark hold)
    · rw [counted_mark hmarks]
      exact htallied.tally
  | _ => trivial

theorem truthful_mark (h : AtEach Truthful (before ++ after)) :
    AtEach Truthful (before ++ moment :: after) := by
  induction after using List.reverseRecOn with
  | nil =>
    rw [append_nil] at h
    refine h.snoc ?_
    rcases hmarks with ⟨_, rfl⟩ | ⟨_, rfl⟩ <;> trivial
  | append_singleton after last ih =>
    rw [← append_assoc] at h
    rw [← cons_append, ← append_assoc]
    exact (ih h.init).snoc (h.last.mark hmarks)

theorem Counts.mark {q : Queue} {record : String → Option UInt32}
    (h : Counts (before ++ after) q record) : Counts (before ++ moment :: after) q record where
  truthful := truthful_mark hmarks h.truthful
  known := by
    intro id number hsend
    exact (h.known id number (delivered_mem_mark hmarks hsend)).imp mem_mark mem_mark
  unsent := by
    intro id hfree hnever
    rw [lastSaved_mark hmarks]
    exact h.unsent id (fun hold => hfree (mem_mark hold)) fun number hold => hnever number (mem_mark hold)
  live := by
    intro msg hmsg hfree
    have ⟨hpublished, hattempt⟩ := h.live msg hmsg fun hold => hfree (mem_mark hold)
    rw [counted_mark hmarks]
    exact ⟨mem_mark hpublished, hattempt⟩
  flying := by
    intro msg hmsg hfree
    rw [lastDelivered_mark hmarks]
    exact h.flying msg hmsg fun hold => hfree (mem_mark hold)
  alone := by
    intro id hfree
    exact h.alone id fun hold => hfree (mem_mark hold)
  stored := by
    intro id attempt hfound hfree
    have ⟨hpublished, hattempt⟩ := h.stored id attempt hfound fun hold => hfree (mem_mark hold)
    rw [lastSaved_mark hmarks]
    exact ⟨mem_mark hpublished, hattempt⟩

end Marks

section Saves
variable {saved : String}
  (hmoment : moment = .requeued saved attempt ∨ moment = .putBack saved attempt)
include hmoment

theorem lastDelivered_save (id : String) :
    lastDelivered id (history ++ [moment]) = lastDelivered id history := by
  rcases hmoment with rfl | rfl <;> exact lastDelivered_concat _

theorem lastSaved_save (id : String) : lastSaved id (history ++ [moment]) =
    if saved = id then some attempt else lastSaved id history := by
  rcases hmoment with rfl | rfl <;> rw [lastSaved_concat, Moment.savedAs] <;> split <;> rfl

theorem delivered_mem_save {number : UInt32} (h : .delivered id number ∈ history ++ [moment]) :
    .delivered id number ∈ history := by
  rcases hmoment with rfl | rfl <;> simpa using h

end Saves

namespace Counts
variable {q q' : Queue} {record record' : String → Option UInt32} {msg : Message}

theorem save (h : Counts history q record) (hmsg : msg ∈ q.live)
    (hmoment : moment = .requeued msg.id msg.attempt ∨ moment = .putBack msg.id msg.attempt)
    (hrecord : ∀ id, id ≠ msg.id → record' id = record id)
    (hself : ∀ attempt, record' msg.id = some attempt → attempt = msg.attempt) :
    Counts (history ++ [moment]) q record' := by
  -- Where nothing was delivered, what is stored is what the counter was.
  have hsame (id : String) (hfree : .moved id ∉ history) (hnone : lastDelivered id history = none) :
      (lastSaved id (history ++ [moment])).getD 0 = (lastSaved id history).getD 0 := by
    rw [lastSaved_save hmoment]
    split
    · rename_i hid
      subst hid
      rw [← counted_of_undelivered hnone, ← (h.live msg hmsg hfree).2]
      rfl
    · rfl
  refine ⟨?_, ?_, ?_, ?_, ?_, ?_, ?_⟩
  · refine h.truthful.snoc ?_
    rcases hmoment with rfl | rfl <;> trivial
  · intro id number hsend
    exact (h.known id number (delivered_mem_save hmoment hsend)).imp mem_snoc mem_snoc
  · intro id hfree hnever
    have hunsent (number : UInt32) : .delivered id number ∉ history :=
      fun hold => hnever number (mem_snoc hold)
    rw [hsame id (unmoved hfree) (lastDelivered_eq_none hunsent)]
    exact h.unsent id (unmoved hfree) hunsent
  · intro other hother hfree
    have ⟨hpublished, hattempt⟩ := h.live other hother (unmoved hfree)
    refine ⟨mem_snoc hpublished, hattempt.trans ?_⟩
    cases hdelivered : lastDelivered other.id history with
    | some number =>
      rw [counted_of_delivered hdelivered, counted_of_delivered ((lastDelivered_save hmoment _).trans hdelivered)]
    | none =>
      rw [counted_of_undelivered hdelivered, counted_of_undelivered ((lastDelivered_save hmoment _).trans hdelivered)]
      exact (hsame other.id (unmoved hfree) hdelivered).symm
  · intro other hother hfree
    rw [lastDelivered_save hmoment]
    exact h.flying other hother (unmoved hfree)
  · intro id hfree
    exact h.alone id (unmoved hfree)
  · intro id attempt hfound hfree
    rw [lastSaved_save hmoment]
    by_cases hid : msg.id = id
    · subst hid
      rw [if_pos rfl, hself attempt hfound]
      exact ⟨mem_snoc (h.live msg hmsg (unmoved hfree)).1, rfl⟩
    · rw [if_neg hid]
      rw [hrecord id (Ne.symm hid)] at hfound
      have ⟨hpublished, hattempt⟩ := h.stored id attempt hfound (unmoved hfree)
      exact ⟨mem_snoc hpublished, hattempt⟩

theorem restart (h : Counts history q record) (hflying : q'.inFlight = ∅)
    (hdistinct : (q'.messages.map Message.id).Nodup)
    (hloaded : ∀ msg ∈ q'.messages, record msg.id = some msg.attempt) :
    Counts (history ++ [.restarted]) q' record := by
  have hsaved (id : String) : lastSaved id (history ++ [.restarted]) = lastSaved id history :=
    lastSaved_concat _
  refine ⟨h.truthful.snoc trivial, ?_, ?_, ?_, ?_, ?_, ?_⟩
  · intro id number hsend
    exact (h.known id number (by simpa using hsend)).imp mem_snoc mem_snoc
  · intro id hfree hnever
    rw [hsaved]
    exact h.unsent id (unmoved hfree) fun number hold => hnever number (mem_snoc hold)
  · intro msg hmsg hfree
    rw [Queue.live, hflying, KeyedMap.entries_empty, append_nil] at hmsg
    obtain ⟨hpublished, hattempt⟩ := h.stored msg.id _ (hloaded msg hmsg) (unmoved hfree)
    rw [counted_of_undelivered (lastDelivered_concat _), hsaved]
    exact ⟨mem_snoc hpublished, hattempt⟩
  · intro msg hmsg
    rw [hflying] at hmsg
    cases hmsg
  · intro id _
    rw [Queue.ledger_eq, hflying, KeyedMap.entries_empty, map_nil, append_nil,
      countP_map]
    have hone := nodup_iff_count_le_one.mp hdistinct id
    rw [List.count, countP_map] at hone
    exact hone
  · intro id attempt hfound hfree
    obtain ⟨hpublished, hattempt⟩ := h.stored id attempt hfound (unmoved hfree)
    rw [hsaved]
    exact ⟨mem_snoc hpublished, hattempt⟩

theorem fresh (h : Counts history q record) (hnew : .published id ∉ history)
    (hfree : .moved id ∉ history) :
    id ∉ q.live.map Message.id ∧ counted id history = 0 ∧ (lastSaved id history).getD 0 = 0 := by
  have hnever (number : UInt32) : .delivered id number ∉ history := by
    intro hsend
    exact (h.known id number hsend).elim hfree hnew
  have hsaved := h.unsent id hfree hnever
  refine ⟨?_, ?_, hsaved⟩
  · intro hmem
    have ⟨msg, hmsg, hid⟩ := mem_map.mp hmem
    subst hid
    exact hnew (h.live msg hmsg hfree).1
  · rw [counted_of_undelivered (lastDelivered_eq_none hnever), hsaved]

end Counts

theorem counts_new (name : String) : Counts [] (Queue.new name) fun _ => none where
  truthful := AtEach.nil
  known := fun _ _ h => absurd h not_mem_nil
  unsent := fun _ _ _ => rfl
  live := fun _ h => absurd h not_mem_nil
  flying := fun _ h => absurd h not_mem_nil
  alone := fun _ _ => Nat.zero_le _
  stored := fun _ _ h => by cases h

end QwerQ
