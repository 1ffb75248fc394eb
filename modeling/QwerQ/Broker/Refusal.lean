import QwerQ.Handlers

/-! Acks and nacks that the storage refuses. Every branch of the two handlers calls its
hook before it changes anything, and a move to the DLQ reports no error, so an error
leaves the broker and the storage as they were, and the same request can be made again. -/
namespace QwerQ
open Process Option

variable {β : Type} {result : Bool × Option Err} {g g' : ConsumerGroup} {q q' : Queue} {w w' : World}
  {change : Storage → Storage} {inFlight : Option Message} {err : Err}

theorem Disk.write_refused {d d' : Disk}
    (h : d.write change = (some err, d')) : d.fails 0 ∧ d' = d.called d.storage := by
  by_cases hfails : d.fails 0
  · have ⟨_, hwrite⟩ := Disk.write_of_fails change hfails
    rw [hwrite] at h
    cases h
    exact ⟨hfails, rfl⟩
  · rw [Disk.write_of_not_fails change hfails] at h
    cases h

/-- What a method with a hook answers: there is nothing to settle, the storage has
refused and nothing has changed, or the message is settled. -/
inductive Answers {β : Type} (inFlight : Bool) (disk : Disk) (before : β) :
    β → Disk → Bool → Option Err → Prop where
  | missing : inFlight = false → Answers inFlight disk before before disk false none
  | refused (found : Bool) (err : Err) : inFlight = true → disk.fails 0 →
      Answers inFlight disk before before (disk.called disk.storage) found (some err)
  | settled {after : β} {disk' : Disk} : inFlight = true →
      Answers inFlight disk before after disk' true none

section Methods
variable {id name : String} {requeue : Bool} {pass : Pass} {now : Time} {disk disk' : Disk}

theorem answers_of_refused {before : β} {inFlight found : Bool}
    (hin : inFlight = true)
    (hwrite : disk.write change = (some err, disk')) :
    Answers inFlight disk before before disk' found (some err) := by
  have ⟨hfails, hdisk⟩ := Disk.write_refused hwrite
  rw [hdisk]
  exact .refused found err hin hfails

theorem AckOutcome.answers {settled : Go β} {before after : β}
    (h : AckOutcome inFlight (deleteStored name id) settled before disk after disk' result) :
    Answers inFlight.isSome disk before after disk' result.1 result.2 := by
  cases h with
  | missing hnone => exact .missing (by rw [hnone]; rfl)
  | refused hfind hhook => exact answers_of_refused (by rw [hfind]; rfl) hhook
  | settled hfind _ _ => exact .settled (by rw [hfind]; rfl)

/-- A nack's result is for the DLQ only on that verdict, and then the storage is not asked. -/
structure Heeds (verdict : Option Verdict) (result : NackResult) (err : Option Err) : Prop where
  moved : result.toDLQ = true → verdict = some .toDLQ
  refused : err ≠ none → verdict ≠ some .toDLQ

theorem heeds_of_kept {verdict : Option Verdict} {result : NackResult} (err : Option Err)
    (hresult : result.toDLQ = false) (hverdict : verdict ≠ some .toDLQ) :
    Heeds verdict result err :=
  ⟨fun hmoved => absurd (hresult.symm.trans hmoved) Bool.false_ne_true, fun _ => hverdict⟩

/-- The hooks refuse only where the storage fails; a group's requeue asks it nothing. -/
theorem NackOutcome.answers {verdict : Message → Verdict}
    {requeueHook : Hook Disk} {gone before after : β} {passWith : Message → Go β}
    {result : NackResult × Option Err}
    (hhook : requeueHook = persistRequeue ∨ requeueHook = Hook.none)
    (h : NackOutcome inFlight (deleteStored name id) before disk verdict requeueHook now gone passWith
      after disk' result) :
    Answers inFlight.isSome disk before after disk' result.1.found result.2 ∧
      Heeds (inFlight.map verdict) result.1 result.2 := by
  cases h with
  | missing hnone =>
    rw [hnone]
    exact ⟨.missing rfl, heeds_of_kept _ rfl nofun⟩
  | toDLQ hfind hverdict =>
    rw [hfind, map_some, hverdict]
    exact ⟨.settled rfl, fun _ => rfl, fun hne => absurd rfl hne⟩
  | dropped hfind hverdict _ =>
    rw [hfind, map_some, hverdict]
    exact ⟨.settled rfl, heeds_of_kept _ rfl nofun⟩
  | keptFromDrop hfind hverdict hwrite =>
    rw [hfind, map_some, hverdict]
    exact ⟨answers_of_refused rfl hwrite, heeds_of_kept _ rfl nofun⟩
  | requeued hfind hverdict _ _ =>
    rw [hfind, map_some, hverdict]
    exact ⟨.settled rfl, heeds_of_kept _ rfl nofun⟩
  | keptFromRequeue hfind hverdict hwrite =>
    rw [hfind, map_some, hverdict]
    rcases hhook with rfl | rfl
    · exact ⟨answers_of_refused rfl hwrite, heeds_of_kept _ rfl nofun⟩
    · cases hwrite

theorem Queue.nackWithHooks_answers {result : NackResult × Option Err}
    (h : q.nackWithHooks id requeue (deleteStored name id) persistRequeue now pass disk =
      .ok ((q', disk'), result)) :
    Answers (q.inFlight.find? id).isSome disk q q' disk' result.1.found result.2 ∧
      Heeds ((q.inFlight.find? id).map fun msg =>
        nackVerdict q.failurePolicy q.maxRetries requeue msg.attempt) result.1 result.2 :=
  (nackWithHooks_cases h).answers (.inl rfl)

theorem ConsumerGroup.nackWithHooks_answers {maxRetries : UInt32}
    {policy : FailurePolicy} {result : NackResult × Option Err}
    (h : g.nackWithHooks id requeue maxRetries policy (deleteStored name id) now pass disk =
      .ok ((g', disk'), result)) :
    Answers ((g.inFlight.find? id).map InFlightEntry.message).isSome disk g g' disk' result.1.found
        result.2 ∧
      Heeds (((g.inFlight.find? id).map InFlightEntry.message).map fun msg =>
        nackVerdict policy maxRetries requeue msg.attempt) result.1 result.2 :=
  (nackWithHooks_cases h).answers (.inr rfl)

end Methods

structure Queue.Same (q q' : Queue) : Prop where
  fields : q' = { q with groups := q'.groups }
  groups : ∀ group, q'.groups.find? group = q.groups.find? group

theorem Queue.Same.refl (q : Queue) : q.Same q := ⟨rfl, fun _ => rfl⟩

structure Untouched (w w' : World) : Prop where
  queues : ∀ name, Option.Rel Queue.Same (w.queue? name) (w'.queue? name)
  broker : w'.broker = { w.broker with queues := w'.broker.queues }
  storage : w'.disk.storage = w.disk.storage
  present : w'.disk.present = w.disk.present

structure Settles (name group id : String) (w : World) (result : Bool × Option Err) (w' : World) :
    Prop where
  refused : result.2 ≠ none → w.disk.fails 0 ∧ (w.inFlightIn name group id).isSome ∧
    Untouched w w' ∧ (group = "" → w'.queue? name = w.queue? name)
  accepted : result.2 = none → (w.inFlightIn name group id).isSome → result.1 = true

section Handlers
variable {name group id : String} {disk : Disk}

theorem untouched_setQueue (hq : w.queue? name = some q) (hsame : q.Same q') :
    Untouched w { w.setQueue q' with disk := w.disk.called w.disk.storage } := by
  have hname : q'.name = q.name := by rw [hsame.fields]
  refine ⟨fun other => ?_, rfl, rfl, rfl⟩
  by_cases hother : other = name
  · have hself : World.queue? other { w.setQueue q' with disk := w.disk.called w.disk.storage } =
        some q' := hother ▸ World.queue?_put q' hq hname
    rw [hself, hother, hq]
    exact .some hsame
  · have hne : other ≠ q'.name := by rwa [hname, World.queue?_name hq]
    have hsame : World.queue? other { w.setQueue q' with disk := w.disk.called w.disk.storage } =
        w.queue? other := World.queue?_setQueue_of_ne w hne
    rw [hsame]
    cases w.queue? other with
    | none => exact .none
    | some other => exact .some (.refl other)

theorem settles_of_answers {before after : β} {found : Bool}
    (hq : w.queue? name = some q)
    (h : Answers (q.inFlightIn group id).isSome w.disk before after disk found result.2)
    (hsame : after = before → q.Same q' ∧ (group = "" → q' = q))
    (hfound : result.2 = none → result.1 = found) :
    Settles name group id w result { w.setQueue q' with disk := disk } := by
  have hin : w.inFlightIn name group id = q.inFlightIn group id := by
    rw [World.inFlightIn, hq, bind_some]
  obtain ⟨done, err⟩ := result
  cases h with
  | missing hmissing =>
    refine ⟨fun hne => absurd rfl hne, fun _ hsome => ?_⟩
    rw [hin, hmissing] at hsome
    cases hsome
  | refused found err hflight hfails =>
    have ⟨hkept, hown⟩ := hsame rfl
    refine ⟨fun _ => ⟨hfails, hin ▸ hflight, untouched_setQueue hq hkept, fun hgroup => ?_⟩, nofun⟩
    rw [hown hgroup]
    exact World.queue?_setQueue_same hq name
  | settled _ => exact ⟨fun hne => absurd rfl hne, fun _ _ => hfound rfl⟩

theorem same_insertGroup (hg : q.groups.find? group = some g) (h : g' = g) :
    q.Same { q with groups := q.groups.insert g' } := by
  have hname : g.name = group := (KeyedMap.find?_eq_some_iff.mp hg).2
  refine ⟨rfl, fun other => ?_⟩
  rw [h]
  by_cases hother : other = group
  · rw [hother, hg, ← hname]
    exact KeyedMap.find?_insert_self _ g
  · exact KeyedMap.find?_insert_of_ne _ (hname ▸ hother)

theorem settles_nowhere (h : w.inFlightIn name group id = none) (w' : World) :
    Settles name group id w (false, none) w' :=
  ⟨fun hne => absurd rfl hne, fun _ hsome => by rw [h] at hsome; cases hsome⟩

section Sections
variable {γ : Type} {label : Queue → Disk → Label} {found : γ → Bool} {error : γ → Option Err}

theorem ensures_own {body : Queue → Disk → Go ((Queue × Disk) × γ)} {post : γ → World → Prop}
    (hq : w.queue? name = some q)
    (hanswers : ∀ {q' disk value}, body q w.disk = .ok ((q', disk), value) →
      Answers (q.inFlight.find? id).isSome w.disk q q' disk (found value) (error value))
    (hpost : ∀ value w', (∀ done, (error value = none → done = found value) →
      Settles name "" id w (done, error value) w') → post value w') :
    (locked (some name) label body).Ensures w post := by
  refine ensures_locked_of hq fun q' disk value hbody => ?_
  have h := hanswers hbody
  rw [← inFlightIn_queue] at h
  exact hpost value _ fun done hdone => settles_of_answers hq h
    (fun heq => ⟨heq ▸ .refl q, fun _ => heq⟩) hdone

theorem ensures_grouped {body : Queue → ConsumerGroup → Disk → Go ((ConsumerGroup × Disk) × γ)}
    {post : Option γ → World → Prop} (hgroup : group ≠ "") (hq : w.queue? name = some q)
    (hanswers : ∀ {g g' disk value}, body q g w.disk = .ok ((g', disk), value) →
      Answers ((g.inFlight.find? id).map InFlightEntry.message).isSome w.disk g g' disk (found value)
        (error value))
    (hmissing : ∀ w', Settles name group id w (false, none) w' → post none w')
    (hpost : ∀ value w', (∀ done, (error value = none → done = found value) →
      Settles name group id w (done, error value) w') → post (some value) w') :
    (lockedGroup (some name) group label body).Ensures w post := by
  refine ensures_locked_of hq fun q' disk result hbody => ?_
  rcases Queue.inGroup_cases hbody with ⟨hnone, rfl, rfl, rfl⟩ | ⟨g, g', value, hg, hok, rfl, rfl⟩
  · refine hmissing _ (settles_nowhere ?_ _)
    rw [World.inFlightIn, hq, bind_some, inFlightIn_no_group hgroup hnone]
  · have h := hanswers hok
    rw [← inFlightIn_group hgroup hg] at h
    exact hpost value _ fun done hdone => settles_of_answers hq h
      (fun heq => ⟨same_insertGroup hg heq, fun hnone => absurd hnone hgroup⟩) hdone

end Sections

theorem handleAck_settles (pass : Pass) :
    (handleAck id name group pass).Ensures w (Settles name group id w) := by
  refine ensures_lookup (fun hq => settles_nowhere (by rw [World.inFlightIn, hq]; rfl) w)
    fun q hq => ?_
  by_cases hgroup : group = ""
  · subst hgroup
    exact ensures_own hq (fun h => (Queue.ackWithHook_cases h).answers)
      fun value w' h => h value.1 fun _ => rfl
  · rw [if_pos hgroup, ensures_bind]
    exact ensures_grouped hgroup hq (fun h => (ConsumerGroup.ackWithHook_cases h).answers)
      (fun _ h => h) fun value w' h => h value.1 fun _ => rfl

/-- Errors of the move to the DLQ are dropped, so that the answer is that of the
section under the lock. -/
theorem settleNack_answers (env : NackEnv) (result : NackResult) (err : Option Err) :
    (settleNack name env result err).Ensures w fun outcome w' =>
      outcome = (err.isNone && result.found, err) ∧ (err ≠ none → w' = w) := by
  unfold settleNack
  cases err with
  | some err => exact ⟨rfl, fun _ => rfl⟩
  | none =>
    cases hfound : result.found with
    | false => exact ⟨rfl, fun hne => absurd rfl hne⟩
    | true =>
      have hdone {w' : World} : ((true, none) : Bool × Option Err) = (true, none) ∧
          ((none : Option Err) ≠ none → w' = w) := ⟨rfl, fun hne => absurd rfl hne⟩
      simp only [Bool.not_true, Bool.false_eq_true, if_false]
      split
      · split
        · rw [ensures_bind]
          exact ensures_iff.mpr fun _ _ _ => hdone
        · exact hdone
      · exact hdone

theorem handleNack_settles (requeue : Bool) (env : NackEnv) :
    (handleNack id name group requeue env).Ensures w (Settles name group id w) := by
  have hfinish (value : NackResult × Option Err) (w₁ : World)
      (h : ∀ done, (value.2 = none → done = value.1.found) →
        Settles name group id w (done, value.2) w₁) :
      (settleNack name env value.1 value.2).Ensures w₁ (Settles name group id w) := by
    have hsettles := h (value.2.isNone && value.1.found) fun hnone => by rw [hnone]; rfl
    refine (settleNack_answers env value.1 value.2).mono fun outcome w' ⟨houtcome, hleft⟩ => ?_
    rw [houtcome]
    exact ⟨fun hne => hleft hne ▸ hsettles.refused hne, hsettles.accepted⟩
  refine ensures_lookup (fun hq => settles_nowhere (by rw [World.inFlightIn, hq]; rfl) w)
    fun q hq => ?_
  by_cases hgroup : group = ""
  · subst hgroup
    rw [if_neg (not_not_intro rfl), ensures_bind]
    exact ensures_own hq (fun h => (Queue.nackWithHooks_answers h).1) hfinish
  · rw [if_pos hgroup, ensures_bind]
    exact ensures_grouped hgroup hq (fun h => (ConsumerGroup.nackWithHooks_answers h).1)
      (fun _ h => h) hfinish

theorem Settles.accepts
    (h : Settles name group id w result w') (hok : ¬ w.disk.fails 0)
    (hin : (w.inFlightIn name group id).isSome) : result = (true, none) := by
  by_cases hnone : result.2 = none
  · exact Prod.ext (h.accepted hnone hin) hnone
  · exact absurd (h.refused hnone).1 hok

theorem Untouched.inFlightIn (h : Untouched w w') (name group id : String) :
    w'.inFlightIn name group id = w.inFlightIn name group id := by
  have hrel := h.queues name
  rw [World.inFlightIn, World.inFlightIn]
  generalize w.queue? name = before at hrel ⊢
  generalize w'.queue? name = after at hrel ⊢
  cases hrel with
  | none => rfl
  | some hsame =>
    rw [bind_some, bind_some, Queue.inFlightIn, Queue.inFlightIn, hsame.groups,
      hsame.fields]

theorem Settles.retries
    {program : Prog (Bool × Option Err)}
    (h : Settles name group id w result w') (hne : result.2 ≠ none) (hok : ¬ disk.fails 0)
    (hprogram : program.Ensures { w' with disk := disk }
      (Settles name group id { w' with disk := disk })) :
    program.Ensures { w' with disk := disk } fun again _ => again = (true, none) := by
  have ⟨_, hin, huntouched, _⟩ := h.refused hne
  have hstill : (w'.inFlightIn name group id).isSome := by rwa [huntouched.inFlightIn]
  exact hprogram.mono fun again w'' hagain => hagain.accepts hok hstill

end Handlers

/-! ### The request again

A request that is accepted can still panic, in the delivery that follows. The one made
again does so only where the first would have: it meets the same queue or group. -/

inductive ReadsAlike (name group : String) (w w' : World) : Prop where
  | own (q : Queue) : group = "" → w.queue? name = some q → w'.queue? name = some q →
      ReadsAlike name group w w'
  | grouped (q q' : Queue) (g : ConsumerGroup) : group ≠ "" → w.queue? name = some q →
      w'.queue? name = some q' → q.Same q' → q.groups.find? group = some g →
      ReadsAlike name group w w'

section Again
variable {name group id : String} {requeue : Bool} {post : Bool × Option Err → Prop}

theorem Settles.readsAlike (h : Settles name group id w result w')
    (hne : result.2 ≠ none) : ReadsAlike name group w w' := by
  have ⟨_, hin, huntouched, hown⟩ := h.refused hne
  have hrel := huntouched.queues name
  cases hq : w.queue? name with
  | none =>
    rw [World.inFlightIn, hq] at hin
    cases hin
  | some q =>
    by_cases hgroup : group = ""
    · exact .own q hgroup hq ((hown hgroup).trans hq)
    · rw [World.inFlightIn, hq, bind_some] at hin
      cases hg : q.groups.find? group with
      | none =>
        rw [inFlightIn_no_group hgroup hg] at hin
        cases hin
      | some g =>
        rw [hq] at hrel
        generalize hq' : w'.queue? name = after at hrel
        cases hrel with
        | some hsame => exact .grouped q _ g hgroup hq hq' hsame hg

theorem ReadsAlike.withDisk (h : ReadsAlike name group w w') (disk : Disk) :
    ReadsAlike name group { w with disk := disk } { w' with disk := disk } := by
  cases h with
  | own q hgroup hq hq' => exact .own q hgroup hq hq'
  | grouped q q' g hgroup hq hq' hsame hg => exact .grouped q q' g hgroup hq hq' hsame hg

theorem returns_lockedGroup {γ : Type} {label : Queue → Disk → Label}
    {body : Queue → ConsumerGroup → Disk → Go ((ConsumerGroup × Disk) × γ)}
    {post : Option γ → World → Prop} (hq : w.queue? name = some q)
    (hg : q.groups.find? group = some g) :
    (lockedGroup (some name) group label body).Returns w post ↔
      ∃ g' disk value, body q g w.disk = .ok ((g', disk), value) ∧
        post (some value)
          { w.setQueue { q with groups := q.groups.insert g' } with disk := disk } := by
  rw [lockedGroup, returns_locked hq]
  simp only [Queue.inGroup, hg, Go.bind_eq_ok, Go.pure_eq]
  constructor
  · rintro ⟨q', disk, result, ⟨⟨⟨g', left⟩, value⟩, hbody, hret⟩, hpost⟩
    cases hret
    exact ⟨g', left, value, hbody, hpost⟩
  · rintro ⟨g', disk, value, hbody, hpost⟩
    exact ⟨_, disk, some value, ⟨((g', disk), value), hbody, rfl⟩, hpost⟩

theorem ReadsAlike.handleAck (h : ReadsAlike name group w w') (hdisk : w'.disk = w.disk)
    (pass : Pass) :
    (handleAck id name group pass).Returns w' (fun result _ => post result) ↔
      (handleAck id name group pass).Returns w fun result _ => post result := by
  cases h with
  | own q hgroup hq hq' =>
    subst hgroup
    rw [QwerQ.handleAck, returns_found hq, returns_found hq', if_neg (not_not_intro rfl),
      returns_locked hq, returns_locked hq', hdisk]
  | grouped q q' g hgroup hq hq' hsame hg =>
    rw [QwerQ.handleAck, returns_found hq, returns_found hq', if_pos hgroup, returns_bind, returns_bind,
      returns_lockedGroup hq hg, returns_lockedGroup hq' ((hsame.groups group).trans hg), hdisk]
    rfl

theorem returns_settleNack {result : NackResult} (env : NackEnv) (err : Option Err)
    (hkept : result.toDLQ ≠ true) :
    (settleNack name env result err).Returns w (fun outcome _ => post outcome) ↔
      post (err.isNone && result.found, err) := by
  unfold settleNack
  cases err with
  | some err => rfl
  | none =>
    cases hfound : result.found with
    | false => rfl
    | true =>
      simp only [Bool.not_true, Bool.false_eq_true, if_false, if_neg hkept]
      rfl

theorem handleNack_refused (env : NackEnv) :
    (handleNack id name group requeue env).Ensures w fun result _ =>
      result.2 ≠ none → w.verdict name group id requeue ≠ some .toDLQ := by
  have hfinish {result : NackResult × Option Err} (w₁ : World)
      (h : Heeds (w.verdict name group id requeue) result.1 result.2) :
      (settleNack name env result.1 result.2).Ensures w₁ fun result _ =>
        result.2 ≠ none → w.verdict name group id requeue ≠ some .toDLQ :=
    (settleNack_answers env result.1 result.2).mono fun outcome _ ⟨houtcome, _⟩ hne =>
      h.refused (by rwa [houtcome] at hne)
  refine ensures_lookup (fun _ hne => absurd rfl hne) fun q hq => ?_
  by_cases hgroup : group = ""
  · subst hgroup
    rw [if_neg (not_not_intro rfl), ensures_bind]
    refine ensures_locked_of hq fun q' disk value hbody => hfinish _ ?_
    rw [World.verdict, hq, bind_some, inFlightIn_queue]
    exact (Queue.nackWithHooks_answers hbody).2
  · rw [if_pos hgroup, ensures_bind]
    refine ensures_locked_of hq fun q' disk value hbody => ?_
    rcases Queue.inGroup_cases hbody with ⟨_, _, _, rfl⟩ | ⟨g, g', result, hg, hok, _, rfl⟩
    · exact fun hne => absurd rfl hne
    · refine hfinish _ ?_
      rw [World.verdict, hq, bind_some, inFlightIn_group hgroup hg]
      exact (ConsumerGroup.nackWithHooks_answers hok).2

theorem ReadsAlike.handleNack (h : ReadsAlike name group w w') (hdisk : w'.disk = w.disk)
    (hkept : w.verdict name group id requeue ≠ some .toDLQ) (env : NackEnv) :
    (handleNack id name group requeue env).Returns w' (fun result _ => post result) ↔
      (handleNack id name group requeue env).Returns w fun result _ => post result := by
  cases h with
  | own q hgroup hq hq' =>
    subst hgroup
    rw [World.verdict, hq, bind_some, inFlightIn_queue] at hkept
    rw [QwerQ.handleNack, returns_found hq, returns_found hq', if_neg (not_not_intro rfl), returns_bind,
      returns_bind, returns_locked hq, returns_locked hq', hdisk]
    refine exists_congr fun q₁ => exists_congr fun disk => exists_congr fun result =>
      and_congr_right fun hbody => ?_
    have hstays : result.1.toDLQ ≠ true := mt (Queue.nackWithHooks_answers hbody).2.moved hkept
    rw [returns_settleNack env result.2 hstays, returns_settleNack env result.2 hstays]
  | grouped q q' g hgroup hq hq' hsame hg =>
    rw [World.verdict, hq, bind_some, inFlightIn_group hgroup hg] at hkept
    have hretries : q'.maxRetries = q.maxRetries := by rw [hsame.fields]
    have hpolicy : q'.failurePolicy = q.failurePolicy := by rw [hsame.fields]
    rw [QwerQ.handleNack, returns_found hq, returns_found hq', if_pos hgroup, returns_bind, returns_bind,
      returns_lockedGroup hq hg, returns_lockedGroup hq' ((hsame.groups group).trans hg), hdisk,
      hretries, hpolicy]
    refine exists_congr fun g₁ => exists_congr fun disk => exists_congr fun result =>
      and_congr_right fun hbody => ?_
    have hstays : result.1.toDLQ ≠ true :=
      mt (ConsumerGroup.nackWithHooks_answers hbody).2.moved hkept
    exact (returns_settleNack env result.2 hstays).trans
      (returns_settleNack env result.2 hstays).symm

end Again

/-- A refused request made again over a storage that may answer by now: it is accepted
unless the storage refuses again or it panics, and it returns what it would have returned
in the state before. -/
structure Repeats (request : Prog (Bool × Option Err)) (w w' : World) (disk : Disk) : Prop where
  accepted : ¬ disk.fails 0 →
    request.Ensures { w' with disk := disk } fun result _ => result = (true, none)
  returns : ∀ post : Bool × Option Err → Prop,
    request.Returns { w' with disk := disk } (fun result _ => post result) ↔
      request.Returns { w with disk := disk } fun result _ => post result

/-- An ack or a nack that returns an error has changed nothing, and the same request can
be made again. -/
theorem refused_settlement_untouched (w : World) (id name group : String) :
    (∀ pass, (handleAck id name group pass).Ensures w fun result w' => result.2 ≠ none →
      Untouched w w' ∧ ∀ disk later, Repeats (handleAck id name group later) w w' disk) ∧
    (∀ requeue env, (handleNack id name group requeue env).Ensures w fun result w' =>
      result.2 ≠ none → Untouched w w' ∧
        ∀ disk later, Repeats (handleNack id name group requeue later) w w' disk) := by
  constructor
  · intro pass
    refine (handleAck_settles pass).mono fun result w' h hne =>
      ⟨(h.refused hne).2.2.1, fun disk later => ⟨fun hok => ?_, fun post => ?_⟩⟩
    · exact h.retries hne hok (handleAck_settles later)
    · exact ((h.readsAlike hne).withDisk disk).handleAck rfl later
  · intro requeue env
    refine ((handleNack_settles requeue env).and (handleNack_refused env)).mono
      fun result w' ⟨h, hverdict⟩ hne =>
        ⟨(h.refused hne).2.2.1, fun disk later => ⟨fun hok => ?_, fun post => ?_⟩⟩
    · exact h.retries hne hok (handleNack_settles requeue later)
    · exact ((h.readsAlike hne).withDisk disk).handleNack rfl (hverdict hne) later

end QwerQ
