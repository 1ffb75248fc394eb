import QwerQ.Broker.Recovery
import QwerQ.Broker.Trace
import QwerQ.Queue.Live

/-! Publishes and purges of one queue that run concurrently. A publish writes the
record first and the memory second, a purge clears both in the same order, and
nothing keeps the two pairs apart. -/
namespace QwerQ
open List Process
variable {w : World} {name id : String}

/-- What a step of a publish or a purge does to a queue's entry for an id. -/
def Label.onEntry (queue id : String) : Label → Latch
  | .enqueue other otherId accepted =>
      if accepted ∧ other = queue ∧ otherId = id then .set else .keep
  | .clear other => if other = queue then .clear else .keep
  | _ => .keep

def World.hasEntry (queue id : String) (w : World) : Bool := id ∈ w.liveIds queue

variable {label : Label} {result : Option Err}

theorem World.hasEntry_iff : w.hasEntry name id = true ↔ id ∈ w.liveIds name := decide_eq_true_iff

theorem World.liveIds_setQueue (name : String) (q : Queue) (w : World) :
    (w.setQueue q).liveIds name = if name = q.name then q.live.map Message.id else w.liveIds name := by
  split
  · rename_i hname
    rw [hname, liveIds, queue?_setQueue_self]
    rfl
  · rename_i hname
    rw [liveIds, queue?_setQueue_of_ne w hname, liveIds]

def Told (w : World) (label : Label) (w' : World) : Prop :=
  Noted w label w' ∧ (w.disk.Sound → ∀ queue id,
    w'.hasEntry queue id = (label.onEntry queue id).apply (w.hasEntry queue id))

theorem entries_run {pool rest : List (Prog α)} {trace : List (Nat × Label)} {w' : World}
    (run : Interleaves pool w trace rest w') (htold : ∀ program ∈ pool, program.Every Told)
    (hsound : w.disk.Sound) (queue id : String) :
    w'.hasEntry queue id =
      Latch.afterAll (Label.onEntry queue id) (w.hasEntry queue id) (trace.map Prod.snd) := by
  have htracks : ∀ program ∈ pool, program.Every (Tracks (fun w => w.disk.Sound)
      (Label.onEntry queue id) (World.hasEntry queue id)) :=
    fun program hprogram => (htold program hprogram).mono
      fun _ _ _ hstep hs => ⟨(hstep.1 hs).1, hstep.2 hs queue id⟩
  exact run.tracked htracks hsound

theorem told_silent (w : World) : Told w .silent w := ⟨noted_silent w, fun _ _ _ => rfl⟩

theorem write_told {change : Storage → Storage}
    (hentry : ∀ queue id, label.onEntry queue id = .keep)
    (hnoted : ∀ w, Noted w label { w with disk := (w.disk.write change).2 }) :
    (write label change).Every Told := by
  refine every_write fun w => ⟨hnoted w, fun _ queue id => ?_⟩
  rw [hentry]
  rfl

theorem saveMessage_told (msg : Message) : (saveMessage msg).Every Told :=
  write_told (fun _ _ => rfl) fun _ => noted_saveMessage rfl

theorem deleteMessage_told (queue id : String) : (deleteMessage queue id).Every Told :=
  write_told (fun _ _ => rfl) fun _ => noted_deleteMessage rfl

theorem deleteQueueMessages_told (queue : String) : (deleteQueueMessages queue).Every Told :=
  write_told (fun _ _ => rfl) fun _ => noted_deleteQueueMessages rfl

theorem told_setQueue {q q' : Queue} (hq : w.queue? name = some q)
    (hname : q'.name = name) (hrecord : ∀ queue id, label.onRecord queue id = .keep)
    (hother : ∀ queue id, queue ≠ name → label.onEntry queue id = .keep)
    (hentry : ∀ id, decide (id ∈ q'.live.map Message.id) =
      (label.onEntry name id).apply (decide (id ∈ q.live.map Message.id))) :
    Told w label (w.setQueue q') := by
  refine ⟨noted_keep hrecord rfl, fun _ queue id => ?_⟩
  rw [World.hasEntry, World.liveIds_setQueue, hname]
  by_cases hqueue : queue = name
  · rw [if_pos hqueue, hentry, hqueue, World.hasEntry, World.liveIds, hq]
    rfl
  · rw [if_neg hqueue, hother queue id hqueue]
    rfl

theorem createQueue_told (name : String) :
    (getOrCreateQueueWithError name).Every Told := by
  refine every_getOrCreateQueueWithError told_silent fun w => ⟨noted_createQueue name w, ?_⟩
  intro hsound queue id
  have hcreated := (createQueue_of_sound name hsound).2
  rw [World.hasEntry, World.liveIds]
  by_cases hqueue : queue = name
  · subst hqueue
    rw [hcreated.queue]
    cases hq : w.queue? queue with
    | none => simp [World.hasEntry, World.liveIds, hq, Label.onEntry, Latch.apply, Queue.live, Queue.new]
    | some q => simp [World.hasEntry, World.liveIds, hq, Label.onEntry, Latch.apply]
  · rw [hcreated.others queue hqueue]
    rfl

theorem enqueue_told (name : String) (msg : Message) (env : Env) :
    (enqueue (some name) msg env).Every Told := by
  refine every_lockedPure told_silent _ fun w name' q q' answer hptr hq hbody => ?_
  cases hptr
  have hname := World.queue?_name hq
  refine told_setQueue hq ((Queue.enqueue_name hbody).trans hname) (fun _ _ => rfl) ?_ ?_
  · intro queue id hqueue
    simp [Label.onEntry, hname, hqueue.symm]
  · intro id
    rcases Queue.enqueue_cases hbody with ⟨hfull, rfl, _⟩ | ⟨hroom, _, hdirect⟩
    · simp [hfull, Label.onEntry, Latch.apply]
    · have hids : id ∈ q'.live.map Message.id ↔ id = msg.id ∨ id ∈ q.live.map Message.id := by
        rw [← Queue.mem_ids_iff_live, Queue.enqueueDirect_ids hdirect, Set.mem_insert_iff,
          Queue.mem_ids_iff_live]
      simp only [hids, hroom, Label.onEntry]
      by_cases hid : id = msg.id
      · simp [hname, hid, Latch.apply]
      · simp [hid, Ne.symm hid, Latch.apply]

theorem saveAndEnqueue_told (name : String) (msg : Message) (env : Env) :
    (saveAndEnqueue (some name) msg env).Every Told := by
  refine Every.bind (saveMessage_told msg) fun failed => ?_
  cases failed with
  | some err => trivial
  | none =>
    refine Every.bind (enqueue_told name msg env) fun refused => ?_
    cases refused with
    | none => trivial
    | some err =>
      refine Every.bind (deleteMessage_told msg.queue msg.id) fun stuck => ?_
      cases stuck <;> trivial

theorem handlePublish_told (req : PublishRequest) (env : PublishEnv) :
    (handlePublish req env).Every Told := by
  refine Every.bind (every_look told_silent _) fun refused => ?_
  cases refused with
  | some err => trivial
  | none =>
    refine Every.bind (fun w => ⟨⟨noted_keep (fun _ _ => rfl) rfl, ?_⟩, trivial⟩) fun refused => ?_
    · intro _ queue id
      rw [World.hasEntry, World.liveIds, queue?_checkKey]
      rfl
    · cases refused with
      | some err => trivial
      | none =>
        refine Every.bind (createQueue_told req.queue) fun failed => ?_
        cases failed with
        | some err => trivial
        | none =>
          refine Every.bind (saveAndEnqueue_told req.queue _ env.enqueue) fun failed => ?_
          cases failed <;> trivial

theorem purgeQueue_told (name : String) : (purgeQueue name).Every Told := by
  refine Every.bind (every_look told_silent _) fun found => ?_
  cases found with
  | false => trivial
  | true =>
    refine Every.bind (deleteQueueMessages_told name) fun failed => ?_
    cases failed with
    | some err => trivial
    | none =>
      refine Every.bind (every_lockedPure told_silent _ ?_) fun _ => trivial
      intro w name' q q' count hptr hq hbody
      cases hptr
      cases hbody
      have hname := World.queue?_name hq
      refine told_setQueue hq hname (fun _ _ => rfl) ?_ ?_
      · intro queue id hqueue
        simp [Label.onEntry, hqueue.symm]
      · intro id
        simp [Label.onEntry, Queue.live, Latch.apply]

section Ways
variable {labels : List Label}

theorem way_dedupCheck {key : String} {now : Time}
    (h : Way (dedupCheck key now) labels result) : labels = [.silent] := by
  cases h with
  | step _ hrest =>
    have ⟨hnil, _⟩ := hrest.done_done
    rw [hnil]

theorem way_enqueue {msg : Message} {env : Env}
    (h : Way (enqueue (some name) msg env) labels result) :
    labels = [.enqueue name msg.id result.isNone] := by
  have ⟨q, q', hname, hbody, hlabels⟩ := way_lockedPure h
  rw [hlabels, hname]
  rw [Queue.enqueue] at hbody
  cases hfull : q.full with
  | true =>
    rw [hfull, if_pos rfl] at hbody
    cases hbody
    rfl
  | false =>
    rw [hfull, if_neg Bool.false_ne_true] at hbody
    simp only [Go.bind_eq_ok, Go.pure_eq] at hbody
    have ⟨_, _, hret⟩ := hbody
    cases hret
    rfl

inductive Written (name id : String) : List Label → Prop where
  | nothing : Written name id []
  | accepted : Written name id [.save name id, .enqueue name id true]
  | refused : Written name id [.save name id, .enqueue name id false, .delete name id]

theorem way_saveAndEnqueue {msg : Message} {env : Env}
    (h : Way (saveAndEnqueue (some msg.queue) msg env) labels result) :
    Written msg.queue msg.id labels := by
  have ⟨failed, _, _, hsave, hrest, hlabels⟩ := h.bind_done
  have ⟨hsaved, hnone⟩ := way_write hsave
  subst hnone
  have ⟨refused, _, _, henqueue, hrest, hlater⟩ := hrest.bind_done
  have hasked := way_enqueue henqueue
  cases refused with
  | none =>
    have ⟨hnil, _⟩ := hrest.done_done
    rw [hlabels, hlater, hsaved, hasked, hnil]
    exact .accepted
  | some err =>
    have ⟨stuck, _, _, hdelete, hrest, hlast⟩ := hrest.bind_done
    have ⟨hdeleted, hnone⟩ := way_write hdelete
    subst hnone
    have ⟨hnil, _⟩ := hrest.done_done
    rw [hlabels, hlater, hlast, hsaved, hasked, hdeleted, hnil]
    exact .refused

def Label.Quiet (label : Label) : Prop := label = .silent ∨ ∃ name, label = .create name

theorem way_handlePublish {req : PublishRequest} {env : PublishEnv} {result : Except Err String}
    (h : Way (handlePublish req env) labels result) :
    ∃ quiet written, labels = quiet ++ written ∧ (∀ label ∈ quiet, label.Quiet) ∧
      Written req.queue (publishId req env) written := by
  have ⟨refused, _, _, hmemory, hrest, hlabels⟩ := h.bind_done
  have hfirst := way_look hmemory
  cases refused with
  | some err =>
    have ⟨hnil, _⟩ := hrest.done_done
    exact ⟨[.silent], [], by rw [hlabels, hfirst, hnil], by simp [Label.Quiet], .nothing⟩
  | none =>
    have ⟨refused, _, _, hkey, hrest, hlater⟩ := hrest.bind_done
    have hsecond := way_dedupCheck hkey
    cases refused with
    | some err =>
      have ⟨hnil, _⟩ := hrest.done_done
      refine ⟨[.silent, .silent], [], ?_, by simp [Label.Quiet], .nothing⟩
      rw [hlabels, hlater, hfirst, hsecond, hnil]
      rfl
    | none =>
      have ⟨failed, created, _, hcreate, hrest, hthen⟩ := hrest.bind_done
      have ⟨hnone, hthird⟩ := way_getOrCreateQueueWithError hcreate
      subst hnone
      have ⟨failed, written, last, hsave, hrest, hlast⟩ := hrest.bind_done
      have hwritten := way_saveAndEnqueue hsave
      have hnil : last = [] := by
        cases failed <;> exact hrest.done_done.1
      refine ⟨[.silent, .silent] ++ created, written, ?_, ?_, hwritten⟩
      · rw [hlabels, hlater, hthen, hlast, hfirst, hsecond, hnil, append_nil, append_assoc]
        rfl
      · rcases hthird with hthird | hthird <;> simp [hthird, Label.Quiet]

theorem way_purgeQueue {result : Nat × Option Err} (h : Way (purgeQueue name) labels result) :
    labels = [.silent] ∨ labels = [.silent, .deleteAll name, .clear name] := by
  have ⟨found, _, _, hlook, hrest, hlabels⟩ := h.bind_done
  have hlooked := way_look hlook
  cases found with
  | false =>
    have ⟨hnil, _⟩ := hrest.done_done
    exact .inl (by rw [hlabels, hlooked, hnil]; rfl)
  | true =>
    have ⟨failed, _, _, hdelete, hrest, hlater⟩ := hrest.bind_done
    have ⟨hdeleted, hnone⟩ := way_write hdelete
    subst hnone
    have ⟨count, _, _, hpurge, hrest, hlast⟩ := hrest.bind_done
    have ⟨_, _, _, _, hpurged⟩ := way_lockedPure hpurge
    have ⟨hnil, _⟩ := hrest.done_done
    exact .inr (by rw [hlabels, hlater, hlast, hlooked, hdeleted, hpurged, hnil]; rfl)

end Ways

def Label.id? : Label → Option String
  | .save _ id | .delete _ id | .enqueue _ id _ | .acked _ id _ | .deadLettered _ id => some id
  | _ => none

def about (id : String) (labels : List Label) : List Label :=
  labels.filter fun label => label.id? = some id

section About
variable {labels rest : List Label} {bit : Bool}

theorem mem_about (hid : label.id? = some id) : label ∈ about id labels ↔ label ∈ labels := by
  simp [about, hid]

theorem not_mem_of_about {shape : List Label} (h : about id labels = shape)
    (hid : label.id? = some id) (hshape : label ∉ shape) : label ∉ labels := by
  rwa [← mem_about hid, h]

theorem Label.onEntry_eq_set : label.onEntry name id = .set ↔ label = .enqueue name id true := by
  cases label <;> grind [Label.onEntry]

theorem Label.onEntry_eq_clear : label.onEntry name id = .clear ↔ label = .clear name := by
  cases label <;> grind [Label.onEntry]

theorem entry_iff_of_not_accepted (henqueue : .enqueue name id true ∉ labels) :
    Latch.afterAll (Label.onEntry name id) bit labels = true ↔ bit = true ∧ .clear name ∉ labels := by
  rw [Latch.afterAll_iff_of_no_set fun label hmem hset =>
    henqueue (Label.onEntry_eq_set.mp hset ▸ hmem)]
  refine and_congr_right fun _ => ⟨fun h hall => ?_, fun hall label hmem hclear => ?_⟩
  · exact h _ hall (Label.onEntry_eq_clear.mpr rfl)
  · exact hall (Label.onEntry_eq_clear.mp hclear ▸ hmem)

theorem about_split (first : List Label) (h : about id labels = first ++ label :: rest) :
    ∃ before after, labels = before ++ label :: after ∧ about id before = first ∧
      about id after = rest := by
  have ⟨before, later, hlabels, hfirst, hlater⟩ := filter_eq_append_iff.mp h
  have ⟨skipped, others, hsplit, hskipped, _, hothers⟩ := filter_eq_cons_iff.mp hlater
  have hnone : about id skipped = [] := filter_eq_nil_iff.mpr hskipped
  refine ⟨before ++ skipped, others, ?_, ?_, hothers⟩
  · rw [hlabels, hsplit, append_assoc]
  · rw [about, filter_append]
    exact (congrArg₂ _ hfirst hnone).trans (append_nil first)

theorem record_iff_not_follows (h : about id labels = .save name id :: rest)
    (hsave : .save name id ∉ rest) (hdelete : .delete name id ∉ rest)
    (hacked : .acked name id true ∉ rest) :
    Latch.afterAll (Label.onRecord name id) bit labels = true ↔
      ¬ Follows (.deleteAll name) (.save name id) labels := by
  obtain ⟨before, after, rfl, hbefore, hafter⟩ := about_split [] h
  have hsaved : Label.save name id ∉ after := not_mem_of_about hafter rfl hsave
  rw [record_iff_of_saved hsaved,
    follows_iff (not_mem_of_about hbefore rfl not_mem_nil) hsaved]
  exact ⟨Spared.deleteAll, fun hall => ⟨not_mem_of_about hafter rfl hdelete,
    not_mem_of_about hafter rfl hacked, hall⟩⟩

theorem not_record_of_deleted (first : List Label)
    (h : about id labels = first ++ .delete name id :: rest) (hsave : .save name id ∉ rest) :
    Latch.afterAll (Label.onRecord name id) bit labels = false := by
  obtain ⟨before, after, rfl, hbefore, hafter⟩ := about_split first h
  refine Latch.afterAll_of_clear (Label.onRecord_eq_clear.mpr (.inl rfl)) fun label hmem hset => ?_
  exact not_mem_of_about hafter rfl hsave (Label.onRecord_eq_set.mp hset ▸ hmem)

theorem entry_iff_not_follows (first : List Label)
    (h : about id labels = first ++ .enqueue name id true :: rest)
    (hfirst : .enqueue name id true ∉ first) (hrest : .enqueue name id true ∉ rest) :
    Latch.afterAll (Label.onEntry name id) bit labels = true ↔
      ¬ Follows (.clear name) (.enqueue name id true) labels := by
  obtain ⟨before, after, rfl, hbefore, hafter⟩ := about_split first h
  have hlast : Label.enqueue name id true ∉ after := not_mem_of_about hafter rfl hrest
  rw [Latch.afterAll_append, Latch.afterAll_cons, Label.onEntry_eq_set.mpr rfl,
    entry_iff_of_not_accepted hlast, follows_iff (not_mem_of_about hbefore rfl hfirst) hlast]
  exact and_iff_right rfl

/-- The purges of the queue cleared it in memory too. -/
def Purged (name : String) (labels : List Label) : Prop :=
  .deleteAll name ∈ labels ↔ .clear name ∈ labels

/-- The purges met the two steps of an accepted publish on the same side. -/
def SameSide (name id : String) (labels : List Label) : Prop :=
  Follows (.deleteAll name) (.save name id) labels ↔
    Follows (.clear name) (.enqueue name id true) labels

theorem agree_iff_of_written {record entry : Bool} (hpurged : Purged name labels)
    (hstart : record = entry) (hfresh : .save name id ∈ labels → entry = false)
    (hwritten : Written name id (about id labels)) :
    (Latch.afterAll (Label.onRecord name id) record labels = true ↔
      Latch.afterAll (Label.onEntry name id) entry labels = true) ↔
      (.enqueue name id true ∈ labels → SameSide name id labels) := by
  generalize hshape : about id labels = shape at hwritten
  cases hwritten with
  | nothing =>
    have hnone {label : Label} (hid : label.id? = some id) : label ∉ labels :=
      not_mem_of_about hshape hid not_mem_nil
    rw [Purged] at hpurged
    have hspared : Spared name id labels ↔ .deleteAll name ∉ labels :=
      ⟨Spared.deleteAll, fun hall => ⟨hnone rfl, hnone rfl, hall⟩⟩
    rw [record_iff_of_not_saved (hnone rfl), entry_iff_of_not_accepted (hnone rfl), hspared, hstart,
      hpurged]
    exact iff_of_true Iff.rfl fun h => absurd h (hnone rfl)
  | accepted =>
    have haccepted : Label.enqueue name id true ∈ labels := by
      rw [← mem_about rfl, hshape]
      simp
    rw [record_iff_not_follows hshape (by simp) (by simp) (by simp),
      entry_iff_not_follows [.save name id] hshape (by simp) (by simp), not_iff_not]
    exact ⟨fun h _ => h, fun h => h haccepted⟩
  | refused =>
    have hsaved : Label.save name id ∈ labels := by
      rw [← mem_about rfl, hshape]
      simp
    have hrefused : Label.enqueue name id true ∉ labels :=
      not_mem_of_about hshape rfl (by simp)
    rw [not_record_of_deleted [.save name id, .enqueue name id false] hshape (by simp),
      entry_iff_of_not_accepted hrefused, hfresh hsaved]
    exact iff_of_true (by simp) fun h => absurd h hrefused

end About

inductive Call where
  | publish (req : PublishRequest) (env : PublishEnv)
  | purge

abbrev Answer := Except Err String ⊕ (Nat × Option Err)

def Call.program (name : String) : Call → Prog Answer
  | .publish req env => do return .inl (← handlePublish { req with queue := name } env)
  | .purge => do return .inr (← purgeQueue name)

def Call.id? : Call → Option String
  | .publish req env => some (publishId req env)
  | .purge => none

theorem Call.program_told (name : String) (call : Call) : (call.program name).Every Told := by
  cases call with
  | publish req env => exact Every.bind (handlePublish_told _ env) fun _ => trivial
  | purge => exact Every.bind (purgeQueue_told name) fun _ => trivial

theorem calls_told (name : String) (calls : List Call) :
    ∀ program ∈ calls.map (Call.program name), program.Every Told := by
  intro program hprogram
  have ⟨call, _, hcall⟩ := mem_map.mp hprogram
  exact hcall ▸ call.program_told name

structure Call.Writes (name : String) (call : Call) (labels : List Label) : Prop where
  ids : ∀ label ∈ labels, ∀ id, label.id? = some id → call.id? = some id
  written : ∀ id, Written name id (about id labels)
  purged : Purged name labels

theorem Label.Quiet.id? (h : label.Quiet) : label.id? = none := by
  rcases h with rfl | ⟨_, rfl⟩ <;> rfl

theorem Written.id? {written : List Label} (h : Written name id written) :
    ∀ label ∈ written, label.id? = some id := by
  cases h <;> simp [Label.id?]

theorem Written.publish_writes {req : PublishRequest} {env : PublishEnv}
    {quiet written : List Label} (hquiet : ∀ label ∈ quiet, label.Quiet)
    (hwritten : Written name (publishId req env) written) :
    (Call.publish req env).Writes name (quiet ++ written) := by
  have hids : ∀ label ∈ quiet ++ written, ∀ id, label.id? = some id →
      some (publishId req env) = some id := by
    intro label hmem id hid
    rcases mem_append.mp hmem with hmem | hmem
    · rw [(hquiet label hmem).id?] at hid
      cases hid
    · rwa [hwritten.id? label hmem] at hid
  have habsent {label : Label} (hid : label.id? = none) (hnot : ¬ label.Quiet) :
      label ∉ quiet ++ written := by
    intro hmem
    rcases mem_append.mp hmem with hmem | hmem
    · exact hnot (hquiet label hmem)
    · rw [hwritten.id? label hmem] at hid
      cases hid
  refine ⟨hids, fun id => ?_, ?_⟩
  · by_cases hid : publishId req env = id
    · subst hid
      have hfirst : about (publishId req env) quiet = [] :=
        filter_eq_nil_iff.mpr fun label hmem => by simp [(hquiet label hmem).id?]
      have hlast : about (publishId req env) written = written :=
        filter_eq_self.mpr fun label hmem => by simp [hwritten.id? label hmem]
      rw [about, filter_append, ← about, ← about, hfirst, hlast]
      exact hwritten
    · have hnone : about id (quiet ++ written) = [] :=
        filter_eq_nil_iff.mpr fun label hmem hsome =>
          hid (Option.some.inj (hids label hmem id (of_decide_eq_true hsome)))
      rw [hnone]
      exact .nothing
  · exact iff_of_false (habsent rfl (by simp [Label.Quiet])) (habsent rfl (by simp [Label.Quiet]))

theorem Call.writes {call : Call} {labels : List Label} {answer : Answer}
    (h : Way (call.program name) labels answer) : call.Writes name labels := by
  cases call with
  | publish req env =>
    have ⟨_, first, _, hpublish, hrest, hlabels⟩ := h.bind_done
    have ⟨hnil, _⟩ := hrest.done_done
    have ⟨quiet, written, hfirst, hquiet, hwritten⟩ := way_handlePublish hpublish
    rw [hlabels, hnil, append_nil, hfirst]
    exact Written.publish_writes hquiet hwritten
  | purge =>
    have ⟨_, first, _, hpurge, hrest, hlabels⟩ := h.bind_done
    have ⟨hnil, _⟩ := hrest.done_done
    rw [hlabels, hnil, append_nil]
    rcases way_purgeQueue hpurge with rfl | rfl
    · exact ⟨by simp [Label.id?], fun id => .nothing, by simp [Purged]⟩
    · exact ⟨by simp [Label.id?], fun id => .nothing, by simp [Purged]⟩

section Pool
variable {calls : List Call} {trace : List (Nat × Label)}

theorem call_unique (hids : (calls.filterMap Call.id?).Nodup) {i j : Nat} {left right : Call}
    (hleft : calls[i]? = some left) (hright : calls[j]? = some right)
    (hleftId : left.id? = some id) (hrightId : right.id? = some id) : i = j := by
  have ⟨hi, hgetLeft⟩ := List.getElem?_eq_some_iff.mp hleft
  have ⟨hj, hgetRight⟩ := List.getElem?_eq_some_iff.mp hright
  have hapart := pairwise_iff_getElem.mp (pairwise_filterMap.mp hids)
  rcases Nat.lt_trichotomy i j with hlt | heq | hlt
  · refine absurd rfl (hapart i j hi hj hlt id ?_ id ?_)
    · rw [hgetLeft, hleftId]
    · rw [hgetRight, hrightId]
  · exact heq
  · refine absurd rfl (hapart j i hj hi hlt id ?_ id ?_)
    · rw [hgetRight, hrightId]
    · rw [hgetLeft, hleftId]

structure Finished (name : String) (calls : List Call) (trace : List (Nat × Label)) : Prop where
  turn : ∀ entry ∈ trace, entry.1 < calls.length
  writes : ∀ i (call : Call), calls[i]? = some call → call.Writes name (own i trace)

theorem Finished.call_of_mem (h : Finished name calls trace) {i : Nat}
    (hmem : (i, label) ∈ trace) :
    ∃ call, calls[i]? = some call ∧ ∀ id, label.id? = some id → call.id? = some id := by
  have hi := h.turn _ hmem
  refine ⟨calls[i], getElem?_eq_getElem hi, ?_⟩
  exact (h.writes i _ (getElem?_eq_getElem hi)).ids label (mem_own.mpr hmem)

theorem Finished.mem_ids (h : Finished name calls trace)
    (hmem : label ∈ trace.map Prod.snd) (hid : label.id? = some id) :
    id ∈ calls.filterMap Call.id? := by
  have ⟨⟨i, label⟩, hentry, heq⟩ := mem_map.mp hmem
  subst heq
  have ⟨call, hcall, hcallId⟩ := h.call_of_mem hentry
  exact mem_filterMap.mpr ⟨call, mem_of_getElem? hcall, hcallId id hid⟩

theorem Finished.written (h : Finished name calls trace)
    (hids : (calls.filterMap Call.id?).Nodup) (id : String) :
    Written name id (about id (trace.map Prod.snd)) := by
  by_cases hsome : ∃ entry ∈ trace, entry.2.id? = some id
  · have ⟨⟨i, label⟩, hmem, hid⟩ := hsome
    have ⟨call, hcall, hcallId⟩ := h.call_of_mem hmem
    have honly : ∀ entry ∈ trace, decide (entry.2.id? = some id) = true → entry.1 = i := by
      intro ⟨j, other⟩ hother hotherId
      have ⟨call', hcall', hcallId'⟩ := h.call_of_mem hother
      exact call_unique hids hcall' hcall (hcallId' id (of_decide_eq_true hotherId)) (hcallId id hid)
    rw [about, filter_own honly]
    exact (h.writes i call hcall).written id
  · have hnone : about id (trace.map Prod.snd) = [] := by
      refine filter_eq_nil_iff.mpr fun label hmem hid => hsome ?_
      have ⟨entry, hentry, heq⟩ := mem_map.mp hmem
      exact ⟨entry, hentry, heq ▸ of_decide_eq_true hid⟩
    rw [hnone]
    exact .nothing

theorem Finished.mem_of_imp (h : Finished name calls trace) {left right : Label}
    (himp : ∀ i call, calls[i]? = some call → left ∈ own i trace → right ∈ own i trace)
    (hmem : left ∈ trace.map Prod.snd) : right ∈ trace.map Prod.snd := by
  have ⟨⟨i, label⟩, hentry, heq⟩ := mem_map.mp hmem
  subst heq
  have ⟨call, hcall, _⟩ := h.call_of_mem hentry
  have hright := himp i call hcall (mem_own.mpr hentry)
  exact mem_map.mpr ⟨_, mem_own.mp hright, rfl⟩

theorem Finished.purged (h : Finished name calls trace) : Purged name (trace.map Prod.snd) :=
  ⟨h.mem_of_imp fun i call hcall => (h.writes i call hcall).purged.mp,
    h.mem_of_imp fun i call hcall => (h.writes i call hcall).purged.mpr⟩

def World.StoredIffLive (name : String) (w : World) : Prop :=
  ∀ id, w.HasRecord name id ↔ id ∈ w.liveIds name

variable {w' : World} {answers : List Answer}

theorem finished_of_run
    (run : Interleaves (calls.map (Call.program name)) w trace (answers.map .done) w')
    (hsound : w.disk.Sound) : Finished name calls trace := by
  refine ⟨fun entry hentry => ?_, fun i call hcall => ?_⟩
  · rw [← length_map (Call.program name)]
    exact run.turn_lt entry hentry
  · have hlength : answers.length = calls.length := by simpa using run.length
    have hi := (List.getElem?_eq_some_iff.mp hcall).1
    have hfirst : (calls.map (Call.program name))[i]? = some (call.program name) := by
      rw [getElem?_map, hcall]
      rfl
    have hlast : (answers.map Process.done : List (Prog Answer))[i]? =
        some (.done answers[i]) := by
      rw [getElem?_map, getElem?_eq_getElem (hlength ▸ hi)]
      rfl
    refine Call.writes (run.emits (fun program hprogram => ?_) hsound hfirst hlast)
    exact (calls_told name calls program hprogram).mono fun _ _ _ hstep hs => (hstep.1 hs).1

/-- Where the calls may start: no storage call fails, the queue's records are its
messages, and the ids to publish are distinct and new to it. -/
structure Ready (name : String) (calls : List Call) (w : World) : Prop where
  sound : w.disk.Sound
  agree : w.StoredIffLive name
  ids : (calls.filterMap Call.id?).Nodup
  fresh : ∀ id ∈ calls.filterMap Call.id?, id ∉ w.liveIds name

/-- Concurrent publishes and purges of a queue leave its records and its memory in
agreement exactly if every accepted message met the purges on the same side: some
purge deletes the records after its record was written if and only if some purge
clears the queue after it was enqueued. -/
theorem publishes_and_purges_agree_iff (hready : Ready name calls w)
    (run : Interleaves (calls.map (Call.program name)) w trace (answers.map .done) w') :
    w'.StoredIffLive name ↔
      ∀ id, .enqueue name id true ∈ trace.map Prod.snd → SameSide name id (trace.map Prod.snd) := by
  have hfinished := finished_of_run run hready.sound
  refine forall_congr' fun id => ?_
  have htold := calls_told name calls
  have hrecord := noted_run run (fun program hprogram =>
    (htold program hprogram).mono fun _ _ _ hstep => hstep.1) hready.sound name id
  have hentry := entries_run run htold hready.sound name id
  have hequal : w.disk.hasRecord name id = w.hasEntry name id :=
    Bool.eq_iff_iff.mpr ((hready.agree id).trans World.hasEntry_iff.symm)
  have hunused : .save name id ∈ trace.map Prod.snd → w.hasEntry name id = false := by
    intro hsaved
    exact decide_eq_false (hready.fresh id (hfinished.mem_ids hsaved rfl))
  rw [← agree_iff_of_written hfinished.purged hequal hunused (hfinished.written hready.ids id),
    ← hrecord, ← hentry, World.hasEntry_iff]
  rfl

end Pool

def publishAndPurge : List Call := [.publish orderRequest ⟨0, 0, "a", 0, Queue.quiet⟩, .purge]

theorem publishAndPurge_ready : Ready "orders" publishAndPurge (World.fresh 0) where
  sound := ⟨rfl, rfl⟩
  agree := fun _ => iff_of_false Bool.false_ne_true not_mem_nil
  ids := by decide
  fresh := fun _ _ => not_mem_nil

/-- A purge after the publish takes the order away on both sides. -/
theorem publishes_and_purges_agree_after :
    ∃ trace w', Interleaves (publishAndPurge.map (Call.program "orders")) (World.fresh 0) trace
        (([.inl (.ok "a"), .inr (1, none)] : List Answer).map .done) w' ∧
      w'.StoredIffLive "orders" := by
  have ⟨trace, w', run, hlabels⟩ : ∃ trace w',
      Interleaves (publishAndPurge.map (Call.program "orders")) (World.fresh 0) trace
        (([.inl (.ok "a"), .inr (1, none)] : List Answer).map .done) w' ∧
      trace.map Prod.snd = [.silent, .silent, .silent, .create "orders", .save "orders" "a",
        .enqueue "orders" "a" true, .silent, .deleteAll "orders", .clear "orders"] :=
    ⟨_, _, interleaves_scheduled [0, 0, 0, 0, 0, 0, 1, 1, 1] _ _, rfl⟩
  refine ⟨trace, w', run, (publishes_and_purges_agree_iff publishAndPurge_ready run).mpr ?_⟩
  intro id hid
  rw [hlabels] at hid ⊢
  obtain rfl : id = "a" := by simpa using hid
  exact iff_of_true
    ⟨[.silent, .silent, .silent, .create "orders"], _, rfl, by simp⟩
    ⟨[.silent, .silent, .silent, .create "orders", .save "orders" "a"], _, rfl, by simp⟩

/-- A purge between the two writes of the publish deletes the record of an order
that is acknowledged and stays in memory. -/
theorem publish_lost_to_purge :
    Ready "orders" publishAndPurge (World.fresh 0) ∧
    ∃ trace w', Interleaves (publishAndPurge.map (Call.program "orders")) (World.fresh 0) trace
        (([.inl (.ok "a"), .inr (0, none)] : List Answer).map .done) w' ∧
      w'.liveIds "orders" = ["a"] ∧ ¬ w'.StoredIffLive "orders" := by
  have run := interleaves_scheduled [0, 0, 0, 0, 0, 1, 1, 1, 0]
    (publishAndPurge.map (Call.program "orders")) (World.fresh 0)
  refine ⟨publishAndPurge_ready, _, _, run, by decide, fun h => ?_⟩
  have hlost := h "a"
  revert hlost
  decide

end QwerQ
