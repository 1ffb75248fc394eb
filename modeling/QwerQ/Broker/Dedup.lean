import QwerQ.Broker.Publish
import QwerQ.Library.Run

/-! The idempotency keys. An entry of the tracker only matters while its time has not
come, so that a cleanup changes no answer; and a key is recorded before the publish that
brings it is known to succeed. -/
namespace QwerQ
open List Process Option

namespace IdempotencyTracker
variable {t t' : IdempotencyTracker} {key other : String} {now later : Time} {ttl : Duration}

def refuses (key : String) (now : Time) (t : IdempotencyTracker) : Bool :=
  (t.keys.find? key).any fun entry => now < entry.2

theorem refuses_later (hle : now ≤ later) (h : t.refuses key now = false) :
    t.refuses key later = false := by
  unfold refuses at h ⊢
  cases hfind : t.keys.find? key with
  | none => rfl
  | some entry =>
    rw [hfind, any_some, decide_eq_false_iff_not] at h
    rw [any_some, decide_eq_false_iff_not]
    exact fun hlt => h (Int.lt_of_le_of_lt hle hlt)

/-- What a cleanup removes has expired: the comparisons differ at the expiry itself, where
the key is kept and not refused. -/
theorem refuses_cleanup (hle : now ≤ later) :
    (t.cleanup now).refuses key later = t.refuses key later := by
  unfold refuses
  rw [cleanup, KeyedMap.find?_filter]
  cases hfind : t.keys.find? key with
  | none => rfl
  | some entry =>
    by_cases hkept : now ≤ entry.2
    · rw [filter_some_pos (by simpa using hkept)]
    · rw [filter_some_neg (by simpa using hkept), any_none, any_some, eq_comm,
        decide_eq_false_iff_not]
      exact fun hlt => hkept (Int.le_of_lt (Int.lt_of_le_of_lt hle hlt))

/-- The tracker with one more key, after the cleanup that a full one makes first. -/
def recorded (key : String) (now : Time) (t : IdempotencyTracker) : IdempotencyTracker :=
  let t := if maxIdempotencyKeys ≤ t.keys.entries.length then t.cleanup now else t
  { t with keys := t.keys.insert (key, now + t.ttl) }

theorem check_eq (hkey : key ≠ "") :
    t.check key now = if t.refuses key now then (some (.duplicateMessage key), t)
      else (none, t.recorded key now) := by
  unfold check
  rw [if_neg hkey]
  rfl

theorem recorded_ttl (key : String) (now : Time) (t : IdempotencyTracker) :
    (t.recorded key now).ttl = t.ttl := by
  unfold recorded
  split <;> rfl

theorem refuses_recorded (hle : now ≤ later) :
    (t.recorded key now).refuses other later =
      if other = key then decide (later < now + t.ttl) else t.refuses other later := by
  have hforced (s : IdempotencyTracker) (hs : s = t ∨ s = t.cleanup now) :
      refuses other later { s with keys := s.keys.insert (key, now + s.ttl) } =
        if other = key then decide (later < now + t.ttl) else t.refuses other later := by
    have hsame : s.refuses other later = t.refuses other later := by
      rcases hs with rfl | rfl
      · rfl
      · exact refuses_cleanup hle
    have httl : s.ttl = t.ttl := by
      rcases hs with rfl | rfl <;> rfl
    rw [← hsame, ← httl]
    unfold refuses
    rw [KeyedMap.find?_insert]
    split <;> rfl
  unfold recorded
  split
  · exact hforced _ (.inr rfl)
  · exact hforced _ (.inl rfl)

inductive Call where
  | check (key : String) (now : Time)
  | cleanup (now : Time)

def Call.time : Call → Time
  | .check _ now => now
  | .cleanup now => now

def Call.key? : Call → Option String
  | .check key _ => some key
  | .cleanup _ => none

def answer : Call → IdempotencyTracker → Option Err × IdempotencyTracker
  | .check key now, t => t.check key now
  | .cleanup now, t => (none, t.cleanup now)

def answers : List Call → IdempotencyTracker → List (Option Err)
  | [], _ => []
  | call :: rest, t => (answer call t).1 :: answers rest (answer call t).2

theorem answer_ttl (call : Call) (t : IdempotencyTracker) : (answer call t).2.ttl = t.ttl := by
  cases call with
  | cleanup time => rfl
  | check key time =>
    by_cases hkey : key = ""
    · subst hkey
      rfl
    · simp only [answer, check_eq hkey]
      split
      · rfl
      · exact recorded_ttl key time t

theorem answer_isSome {call : Call} (hkey : key ≠ "") (hcall : call.key? = some key) :
    (answer call t).1.isSome = t.refuses key call.time := by
  cases call with
  | cleanup time => cases hcall
  | check other time =>
    cases hcall
    simp only [answer, check_eq hkey, Call.time]
    split
    · rename_i hrefused
      rw [hrefused]
      rfl
    · rename_i haccepted
      rw [Bool.not_eq_true] at haccepted
      rw [haccepted]
      rfl

/-- Only an accepted check of the key itself changes what becomes of it later. -/
theorem refuses_answer {call : Call} (hkey : key ≠ "") (hle : call.time ≤ later) :
    (answer call t).2.refuses key later =
      if call.key? = some key ∧ t.refuses key call.time = false then
        decide (later < call.time + t.ttl)
      else t.refuses key later := by
  cases call with
  | cleanup time =>
    rw [if_neg fun h => nomatch h.1]
    exact refuses_cleanup hle
  | check other time =>
    by_cases hother : other = ""
    · rw [if_neg fun h => hkey ((Option.some.inj h.1).symm.trans hother)]
      subst hother
      rfl
    · have hle : time ≤ later := hle
      simp only [answer, check_eq hother, Call.key?, Call.time, Option.some.injEq]
      by_cases hrefused : t.refuses other time = true
      · rw [if_pos hrefused, if_neg]
        rintro ⟨rfl, haccepted⟩
        rw [haccepted] at hrefused
        cases hrefused
      · rw [if_neg hrefused, refuses_recorded hle]
        by_cases hsame : key = other
        · subst hsame
          rw [if_pos rfl, if_pos ⟨rfl, Bool.eq_false_iff.mpr hrefused⟩]
          rfl
        · rw [if_neg hsame, if_neg fun h => hsame h.1.symm]

structure Agree (now : Time) (t t' : IdempotencyTracker) : Prop where
  ttl : t'.ttl = t.ttl
  refuses : ∀ key, key ≠ "" → ∀ later, now ≤ later → t'.refuses key later = t.refuses key later

theorem Agree.answer (h : Agree now t t') (call : Call) (hle : now ≤ call.time) :
    (answer call t').1 = (answer call t).1 ∧
      Agree call.time (answer call t).2 (answer call t').2 := by
  constructor
  · cases call with
    | cleanup time => rfl
    | check key time =>
      by_cases hkey : key = ""
      · subst hkey
        rfl
      · simp only [IdempotencyTracker.answer, check_eq hkey, h.refuses key hkey time hle]
        split <;> rfl
  · refine ⟨?_, fun key hkey later hlater => ?_⟩
    · rw [answer_ttl, answer_ttl, h.ttl]
    · rw [refuses_answer hkey hlater, refuses_answer hkey hlater, h.ttl, h.refuses key hkey _ hle,
        h.refuses key hkey later (hle.trans hlater)]

def Forward (now : Time) (calls : List Call) : Prop :=
  (calls.map Call.time).Pairwise (· ≤ ·) ∧ ∀ call ∈ calls, now ≤ call.time

theorem Agree.answers (h : Agree now t t') {calls : List Call} (hforward : Forward now calls) :
    answers calls t' = answers calls t := by
  induction calls generalizing now t t' with
  | nil => rfl
  | cons call rest ih =>
    have ⟨hsorted, hnow⟩ := hforward
    rw [map_cons, pairwise_cons] at hsorted
    have ⟨hsame, hnext⟩ := h.answer call (hnow call mem_cons_self)
    have hrest : Forward call.time rest :=
      ⟨hsorted.2, fun next hnext => hsorted.1 _ (mem_map_of_mem hnext)⟩
    rw [IdempotencyTracker.answers, IdempotencyTracker.answers, hsame, ih hnext hrest]

structure Decided where
  call : Call
  refused : Bool

inductive Step : List Decided → IdempotencyTracker → List Decided → IdempotencyTracker → Prop where
  | call {history : List Decided} {t : IdempotencyTracker} (call : Call) :
      (∀ earlier ∈ history, earlier.call.time ≤ call.time) →
      Step history t [⟨call, (answer call t).1.isSome⟩] (answer call t).2

abbrev Runs (ttl : Duration) := Run Step (new ttl)

/-- The checks of one key: when they were made and whether they were refused. -/
def checksOf (key : String) (history : List Decided) : List (Time × Bool) :=
  history.filterMap fun decided =>
    if decided.call.key? = some key then some (decided.call.time, decided.refused) else none

def lastAccepted (checks : List (Time × Bool)) : Option Time :=
  ((checks.filter fun check => !check.2).getLast?).map Prod.fst

/-- A check is refused exactly if the last accepted one is less than the TTL away. -/
def Windowed (ttl : Duration) (before : List (Time × Bool)) (check : Time × Bool) : Prop :=
  check.2 = true ↔ ∃ last, lastAccepted before = some last ∧ check.1 < last + ttl

theorem checksOf_snoc (key : String) (history : List Decided) (decided : Decided) :
    checksOf key (history ++ [decided]) =
      if decided.call.key? = some key then
        checksOf key history ++ [(decided.call.time, decided.refused)]
      else checksOf key history := by
  unfold checksOf
  rw [filterMap_append]
  split
  · rename_i hcall
    simp [hcall]
  · rename_i hcall
    simp [hcall]

theorem lastAccepted_snoc (checks : List (Time × Bool)) (now : Time) (refused : Bool) :
    lastAccepted (checks ++ [(now, refused)]) = if refused then lastAccepted checks else some now := by
  unfold lastAccepted
  rw [filter_append]
  cases refused with
  | true => simp
  | false => simp

/-- The tracker refuses what the history of its checks says. -/
structure Tracks (ttl : Duration) (history : List Decided) (t : IdempotencyTracker) : Prop where
  refuses : ∀ key, key ≠ "" → ∀ now, (∀ earlier ∈ history, earlier.call.time ≤ now) →
    t.refuses key now = (lastAccepted (checksOf key history)).any fun last => now < last + ttl
  decided : ∀ key, key ≠ "" → AtEach (Windowed ttl) (checksOf key history)
  window : t.ttl = ttl

theorem Tracks.start (httl : 0 < ttl) : Tracks ttl [] (new ttl) :=
  ⟨fun _ _ _ _ => rfl, fun _ _ => AtEach.nil, if_neg (Int.not_le.mpr httl)⟩

theorem Tracks.step {history events : List Decided} (h : Tracks ttl history t)
    (taken : Step history t events t') : Tracks ttl (history ++ events) t' := by
  cases taken with
  | call call hforward =>
    refine ⟨fun key hkey later hlater => ?_, fun key hkey => ?_, (answer_ttl call t).trans h.window⟩
    · have hle : call.time ≤ later := hlater _ mem_concat_self
      have hnow := h.refuses key hkey call.time hforward
      have hbefore := h.refuses key hkey later fun earlier hearlier =>
        hlater earlier (by simp [hearlier])
      rw [refuses_answer hkey hle, checksOf_snoc, h.window]
      by_cases hcall : call.key? = some key
      · rw [if_pos hcall, lastAccepted_snoc, answer_isSome hkey hcall]
        cases hrefused : t.refuses key call.time with
        | true => simpa using hbefore
        | false => simp [hcall]
      · rw [if_neg hcall, if_neg fun h => hcall h.1]
        exact hbefore
    · rw [checksOf_snoc]
      split
      · rename_i hcall
        refine (h.decided key hkey).snoc ?_
        rw [Windowed, answer_isSome hkey hcall, h.refuses key hkey call.time hforward]
        simp [Option.any_eq_true]
      · exact h.decided key hkey

/-- The window is exact, and neither a cleanup nor another key changes an answer: two runs
with the same checks of a key, whatever else they hold, decide them alike. -/
theorem window_exact (httl : 0 < ttl) {history : List Decided} (run : Runs ttl history t)
    (hkey : key ≠ "") :
    AtEach (Windowed ttl) (checksOf key history) ∧
      ∀ {history' : List Decided} {t' : IdempotencyTracker}, Runs ttl history' t' →
        (checksOf key history').map Prod.fst = (checksOf key history).map Prod.fst →
        checksOf key history' = checksOf key history := by
  have htracks {history : List Decided} {t : IdempotencyTracker} (run : Runs ttl history t) :
      Tracks ttl history t := Run.invariant (Tracks ttl) (.start httl) Tracks.step run
  refine ⟨(htracks run).decided key hkey, fun run' htimes => ?_⟩
  refine ((htracks run).decided key hkey).determined ?_ ((htracks run').decided key hkey) htimes
  intro before left right hleft hright htime
  refine Prod.ext htime (Bool.eq_iff_iff.mpr ?_)
  rw [Windowed] at hleft hright
  rw [hleft, hright, htime]

/-- A key checked within the window, at its end and after a cleanup in between. -/
theorem window_exact_at_expiry : ∃ history t, Runs 5 history t ∧
    checksOf "a" history = [(0, false), (4, true), (5, false)] ∧
    AtEach (Windowed 5) (checksOf "a" history) := by
  have hfirst : Runs 5 ([] ++ [⟨.check "a" 0, false⟩]) _ :=
    .next .start (Step.call (.check "a" 0) (by simp))
  have hsecond := hfirst.next (Step.call (.check "a" 4) (by simp [Call.time]))
  have hcleaned := hsecond.next (Step.call (.cleanup 5) (by simp [Call.time]))
  have hlast := hcleaned.next (Step.call (.check "a" 5) (by simp [Call.time]))
  exact ⟨_, _, hlast, rfl, (window_exact (by decide) hlast (by decide)).1⟩

end IdempotencyTracker

def SameDecisions (now : Time) (b b' : Broker) : Prop :=
  ∀ calls, IdempotencyTracker.Forward now calls →
    b'.dedup.map (IdempotencyTracker.answers calls) = b.dedup.map (IdempotencyTracker.answers calls)

def Broker.tracks (b : Broker) : Bool := b.dedup.any fun tracker => 0 < tracker.ttl

section Key
variable {b b' : Broker} {key : String} {now : Time}

theorem sameDecisions_of_dedup (h : b'.dedup = b.dedup) : SameDecisions now b b' :=
  fun _ _ => by rw [h]

theorem agree_recorded {tracker : IdempotencyTracker} (hkey : tracker.refuses key now = false)
    (httl : tracker.ttl ≤ 0) : IdempotencyTracker.Agree now tracker (tracker.recorded key now) := by
  refine ⟨IdempotencyTracker.recorded_ttl key now tracker, fun other _ later hlater => ?_⟩
  rw [IdempotencyTracker.refuses_recorded hlater]
  split
  · rename_i hother
    rw [hother, IdempotencyTracker.refuses_later hlater hkey, decide_eq_false_iff_not]
    have hexpired : now + tracker.ttl ≤ now + 0 := Int.add_le_add_left httl now
    rw [Int.add_zero] at hexpired
    exact Int.not_lt.mpr (hexpired.trans hlater)
  · rfl

theorem checkKey_error {err : Err} (h : (b.checkKey key now).1 = some err) :
    err = .duplicateMessage key := by
  unfold Broker.checkKey at h
  cases htracker : b.dedup with
  | none =>
    rw [htracker] at h
    cases h
  | some tracker =>
    rw [htracker] at h
    by_cases hkey : key = ""
    · simp [IdempotencyTracker.check, hkey] at h
    · simp only [IdempotencyTracker.check_eq hkey] at h
      split at h
      · exact (Option.some.inj h).symm
      · cases h

theorem checkKey_sameDecisions_iff (hkey : key ≠ "") (haccepted : (b.checkKey key now).1 = none)
    (hdedup : b'.dedup = (b.checkKey key now).2.dedup) :
    SameDecisions now b b' ↔ b.tracks = false := by
  unfold Broker.checkKey at haccepted hdedup
  unfold Broker.tracks
  cases htracker : b.dedup with
  | none =>
    rw [htracker] at hdedup
    exact iff_of_true (sameDecisions_of_dedup hdedup) rfl
  | some tracker =>
    simp only [htracker, IdempotencyTracker.check_eq hkey] at haccepted hdedup
    cases hrefuses : tracker.refuses key now with
    | true => simp [hrefuses] at haccepted
    | false =>
      simp only [hrefuses, Bool.false_eq_true, if_false] at hdedup
      rw [any_some, decide_eq_false_iff_not, Int.not_lt]
      constructor
      · intro hsame
        have hanswers := hsame [.check key now] ⟨by simp, by simp [IdempotencyTracker.Call.time]⟩
        rw [hdedup, htracker] at hanswers
        simp only [map_some, IdempotencyTracker.answers, IdempotencyTracker.answer,
          IdempotencyTracker.check_eq hkey, IdempotencyTracker.refuses_recorded (Int.le_refl now),
          if_true, hrefuses] at hanswers
        by_contra hpositive
        have hwithin : now < now + tracker.ttl := Int.lt_add_of_pos_right now (Int.not_le.mp hpositive)
        simp [hwithin] at hanswers
      · intro httl calls hforward
        rw [hdedup, htracker, map_some, map_some,
          (agree_recorded hrefuses httl).answers hforward]

end Key

def checkedFirst (req : PublishRequest) (env : PublishEnv) (rest : Prog (Except Err α)) :
    Prog (Except Err α) := do
  if let some err ← memoryCheck req env.alloc then return .error err
  if let some err ← dedupCheck req.idempotencyKey env.checked then return .error err
  rest

def SameTracker (w : World) (_ : Label) (w' : World) : Prop := w'.broker.dedup = w.broker.dedup

section Publish
variable {req : PublishRequest} {env : PublishEnv} {w w' : World} {err : Err}

theorem enqueue_sameTracker (ptr : Option String) (msg : Message) (env : Env) :
    (enqueue ptr msg env).Every SameTracker :=
  every_lockedPure (fun _ => rfl) ptr fun _ _ _ _ _ _ _ _ => rfl

theorem write_sameTracker (label : Label) (change : Storage → Storage) :
    (write label change).Every SameTracker :=
  every_write fun _ => rfl

theorem createQueue_dedup (name : String) (w : World) :
    (createQueue name w).2.broker.dedup = w.broker.dedup := by
  unfold createQueue
  split
  · rfl
  · split <;> rfl

theorem createStreamQueue_dedup (name : String) (w : World) :
    (createStreamQueue name w).2.broker.dedup = w.broker.dedup := by
  unfold createStreamQueue
  split
  · rfl
  · split
    split <;> rfl

theorem saveAndEnqueue_sameTracker (q : Option String) (msg : Message) (env : Env) :
    (saveAndEnqueue q msg env).Every SameTracker := by
  refine (write_sameTracker _ _).bind fun refused => ?_
  cases refused with
  | some err => trivial
  | none =>
    refine (enqueue_sameTracker q msg env).bind fun full => ?_
    cases full with
    | none => trivial
    | some err =>
      refine (write_sameTracker _ _).bind fun rollback => ?_
      cases rollback <;> trivial

theorem lockedStream_sameTracker {α : Type} (ptr : Option String)
    (body : StreamQueue → Disk → (StreamQueue × Disk) × α) :
    (lockedStream ptr body).Every SameTracker := by
  refine every_atomic (fun w result w' h => ?_) fun w _ _ => rfl
  cases hptr : ptr.bind w.stream? with
  | none => simp [hptr] at h
  | some sq =>
    simp only [hptr, Except.ok.injEq, Prod.mk.injEq] at h
    rw [← h.2]
    rfl

theorem checkedFirst_sameDecisions_iff {rest : Prog (Except Err α)} (hrest : rest.Every SameTracker)
    (hkey : req.idempotencyKey ≠ "")
    (hrun : (checkedFirst req env rest).run w = (.ok (.error err), w'))
    (hother : ∀ key, err ≠ .duplicateMessage key) :
    SameDecisions env.checked w.broker w'.broker ↔
      w.broker.checkMemory req env.alloc ≠ none ∨ w.broker.tracks = false := by
  have hret : (checkedFirst req env rest).Returns w fun result s => result = .error err ∧ s = w' :=
    returns_iff.mpr ⟨_, _, hrun, rfl, rfl⟩
  simp only [checkedFirst, memoryCheck, dedupCheck, returns_bind, returns_look] at hret
  cases hmemory : w.broker.checkMemory req env.alloc with
  | some refusal =>
    simp only [hmemory, pure_eq, returns_done] at hret
    rw [← hret.2]
    exact iff_of_true (sameDecisions_of_dedup rfl) (.inl (some_ne_none _))
  | none =>
    simp only [hmemory, returns_bind, returns_step, returns_done] at hret
    cases haccepted : (w.broker.checkKey req.idempotencyKey env.checked).1 with
    | some duplicate =>
      simp only [haccepted, pure_eq, returns_done] at hret
      have hduplicate := checkKey_error haccepted
      rw [Except.error.inj hret.1] at hduplicate
      exact absurd hduplicate (hother _)
    | none =>
      simp only [haccepted] at hret
      let checked : World := { w with broker := (w.broker.checkKey req.idempotencyKey env.checked).2 }
      obtain ⟨result, last, hrun, _, hlast⟩ := returns_iff.mp hret
      have hdedup : (rest.run checked).2.broker.dedup = checked.broker.dedup := by
        let inv (s : World) : Prop := s.broker.dedup = checked.broker.dedup
        have hkept : rest.Every fun s _ s' => inv s → inv s' :=
          hrest.mono fun s _ s' hsame hinv => hsame.trans hinv
        exact Every.run_keeps hkept (show inv checked from rfl)
      rw [hrun, hlast] at hdedup
      rw [checkKey_sameDecisions_iff hkey haccepted hdedup]
      exact (or_iff_right (not_not_intro rfl)).symm

theorem handlePublish_checkedFirst (req : PublishRequest) (env : PublishEnv) :
    ∃ rest : Prog (Except Err String), handlePublish req env = checkedFirst req env rest ∧
      rest.Every SameTracker := by
  refine ⟨_, rfl, ?_⟩
  refine Every.bind (every_getOrCreateQueueWithError (fun _ => rfl) (createQueue_dedup req.queue))
    fun refused => ?_
  cases refused with
  | some err => trivial
  | none =>
    refine (saveAndEnqueue_sameTracker _ _ _).bind fun result => ?_
    cases result <;> trivial

theorem handleStreamPublish_checkedFirst (req : PublishRequest) (env : PublishEnv) :
    ∃ rest : Prog (Except Err (String × UInt64)),
      handleStreamPublish req env = checkedFirst req env rest ∧ rest.Every SameTracker := by
  refine ⟨_, rfl, ?_⟩
  have hcreate : (getOrCreateStreamQueueWithError req.queue).Every SameTracker := by
    refine Every.bind (every_look (fun _ => rfl) _) fun found => ?_
    cases found with
    | true => trivial
    | false => exact fun w => ⟨createStreamQueue_dedup req.queue w, trivial⟩
  refine hcreate.bind fun refused => ?_
  cases refused with
  | some err => trivial
  | none =>
    refine (lockedStream_sameTracker _ _).bind fun result => ?_
    cases result <;> trivial

/-- A publish that fails after its checks has used up its key. -/
theorem failed_publish_frees_key_iff (hkey : req.idempotencyKey ≠ "")
    (hother : ∀ key, err ≠ .duplicateMessage key)
    (hrun : (handlePublish req env).run w = (.ok (.error err), w') ∨
      (handleStreamPublish req env).run w = (.ok (.error err), w')) :
    SameDecisions env.checked w.broker w'.broker ↔
      w.broker.checkMemory req env.alloc ≠ none ∨ w.broker.tracks = false := by
  rcases hrun with hrun | hrun
  · have ⟨rest, hguarded, hrest⟩ := handlePublish_checkedFirst req env
    rw [hguarded] at hrun
    exact checkedFirst_sameDecisions_iff hrest hkey hrun hother
  · have ⟨rest, hguarded, hrest⟩ := handleStreamPublish_checkedFirst req env
    rw [hguarded] at hrun
    exact checkedFirst_sameDecisions_iff hrest hkey hrun hother

end Publish

def keyedOrder : PublishRequest := { newOrder "" with idempotencyKey := "k" }

/-- Refused by the memory check, the order keeps its key for the next try. -/
theorem failed_publish_frees_key_memory :
    ∃ w w', w.broker.checkMemory keyedOrder 2 ≠ none ∧
      (handlePublish keyedOrder { publishing with alloc := 2 }).run w =
        (.ok (.error .memoryPressure), w') ∧ SameDecisions 0 w.broker w'.broker := by
  let w : World := { fullOrders with broker := { fullOrders.broker with memoryLimit := 1 } }
  have hmemory : w.broker.checkMemory keyedOrder 2 ≠ none := by decide
  have hrun : (handlePublish keyedOrder { publishing with alloc := 2 }).run w =
      (.ok (.error .memoryPressure), w) := rfl
  have hother (key : String) : Err.memoryPressure ≠ .duplicateMessage key := fun h => by cases h
  exact ⟨w, w, hmemory, hrun,
    (failed_publish_frees_key_iff (by decide) hother (.inl hrun)).mpr (.inl hmemory)⟩

/-- Refused by a full queue, the order is a duplicate when it is tried again. -/
theorem failed_publish_uses_key :
    ∃ w', (handlePublish keyedOrder publishing).run fullOrders = (.ok (.error .queueFull), w') ∧
      ¬SameDecisions publishing.checked fullOrders.broker w'.broker ∧
      ∃ w'', (handlePublish keyedOrder publishing).run w' =
        (.ok (.error (.duplicateMessage "k")), w'') := by
  refine ⟨_, rfl, fun hsame => ?_, _, rfl⟩
  have hanswers := hsame [.check "k" 0] ⟨by simp, by simp [IdempotencyTracker.Call.time, publishing]⟩
  revert hanswers
  decide

end QwerQ
