import QwerQ.Handlers
import QwerQ.Library.Latch

/-! What a trace says about the stored records. Over a storage that does not fail the
label of a step names the record it writes or deletes, so which records are there
after any shuffle of calls can be read off the labels. -/
namespace QwerQ
open Process
variable {name id : String}

def Label.onRecord (queue id : String) : Label → Latch
  | .save other otherId => if other = queue ∧ otherId = id then .set else .keep
  | .delete other otherId => if other = queue ∧ otherId = id then .clear else .keep
  | .acked other otherId ok => if ok ∧ other = queue ∧ otherId = id then .clear else .keep
  | .deleteAll other => if other = queue then .clear else .keep
  | _ => .keep

def Disk.hasRecord (queue id : String) (disk : Disk) : Bool :=
  (disk.storage.messages.find? (queue, id)).isSome

section Labels
variable {label : Label} {labels before after : List Label} {bit : Bool}

theorem Label.onRecord_eq_set : label.onRecord name id = .set ↔ label = .save name id := by
  cases label <;> grind [Label.onRecord]

theorem Label.onRecord_eq_clear : label.onRecord name id = .clear ↔
    label = .delete name id ∨ label = .acked name id true ∨ label = .deleteAll name := by
  cases label <;> grind [Label.onRecord]

structure Spared (name id : String) (labels : List Label) : Prop where
  delete : .delete name id ∉ labels
  acked : .acked name id true ∉ labels
  deleteAll : .deleteAll name ∉ labels

theorem spared_iff :
    Spared name id labels ↔ ∀ label ∈ labels, label.onRecord name id ≠ .clear := by
  constructor
  · intro h label hmem hclear
    rcases Label.onRecord_eq_clear.mp hclear with rfl | rfl | rfl
    · exact h.delete hmem
    · exact h.acked hmem
    · exact h.deleteAll hmem
  · exact fun h => ⟨fun hmem => h _ hmem (Label.onRecord_eq_clear.mpr (.inl rfl)),
      fun hmem => h _ hmem (Label.onRecord_eq_clear.mpr (.inr (.inl rfl))),
      fun hmem => h _ hmem (Label.onRecord_eq_clear.mpr (.inr (.inr rfl)))⟩

theorem record_iff_of_not_saved (hsave : .save name id ∉ labels) :
    Latch.afterAll (Label.onRecord name id) bit labels = true ↔
      bit = true ∧ Spared name id labels := by
  rw [spared_iff, Latch.afterAll_iff_of_no_set]
  exact fun label hmem hset => hsave (Label.onRecord_eq_set.mp hset ▸ hmem)

theorem record_iff_of_saved (hsave : .save name id ∉ after) :
    Latch.afterAll (Label.onRecord name id) bit (before ++ .save name id :: after) = true ↔
      Spared name id after := by
  rw [spared_iff, Latch.afterAll_iff_of_set (Label.onRecord_eq_set.mpr rfl)]
  exact fun label hmem hset => hsave (Label.onRecord_eq_set.mp hset ▸ hmem)

end Labels

/-- From a storage that does not fail, the label says what becomes of every record. -/
def Noted (w : World) (label : Label) (w' : World) : Prop :=
  w.disk.Sound → w'.disk.Sound ∧
    ∀ queue id, w'.disk.hasRecord queue id =
      (label.onRecord queue id).apply (w.disk.hasRecord queue id)

section Noted
variable {w w' : World} {label : Label}

theorem noted_run {pool rest : List (Prog α)} {trace : List (Nat × Label)}
    (run : Interleaves pool w trace rest w') (hnoted : ∀ program ∈ pool, program.Every Noted)
    (hsound : w.disk.Sound) (queue id : String) :
    w'.disk.hasRecord queue id =
      Latch.afterAll (Label.onRecord queue id) (w.disk.hasRecord queue id) (trace.map Prod.snd) := by
  have htracks : ∀ program ∈ pool, program.Every (Tracks (fun w => w.disk.Sound)
      (Label.onRecord queue id) fun w => w.disk.hasRecord queue id) :=
    fun program hprogram => (hnoted program hprogram).mono
      fun _ _ _ hstep hs => ⟨(hstep hs).1, (hstep hs).2 queue id⟩
  exact run.tracked htracks hsound

theorem noted_keep (hkeep : ∀ queue id, label.onRecord queue id = .keep)
    (hdisk : w'.disk = w.disk) : Noted w label w' := by
  intro hsound
  rw [hdisk]
  refine ⟨hsound, fun queue id => ?_⟩
  rw [hkeep]
  rfl

theorem noted_silent (w : World) : Noted w .silent w := noted_keep (fun _ _ => rfl) rfl

theorem noted_write {change : Storage → Storage}
    (hdisk : w'.disk = (w.disk.write change).2)
    (hrecord : ∀ queue id, ((change w.disk.storage).messages.find? (queue, id)).isSome =
      (label.onRecord queue id).apply (w.disk.hasRecord queue id)) : Noted w label w' := by
  intro hsound
  rw [hdisk, hsound.write_eq]
  exact ⟨⟨hsound.present, hsound.faults⟩, hrecord⟩

theorem noted_saveMessage {msg : Message}
    (hdisk : w'.disk = (w.disk.write (Storage.saveMessage msg)).2) :
    Noted w (.save msg.queue msg.id) w' := by
  refine noted_write hdisk fun queue id => ?_
  rw [Storage.saveMessage, KeyedMap.find?_insert, Label.onRecord]
  by_cases hkey : msg.queue = queue ∧ msg.id = id
  · rw [if_pos hkey, if_pos (by rw [hkey.1, hkey.2])]
    rfl
  · rw [if_neg hkey, if_neg fun heq => hkey (by cases heq; exact ⟨rfl, rfl⟩)]
    rfl

theorem noted_deleteMessage {queue id : String}
    (hdisk : w'.disk = (w.disk.write (Storage.deleteMessage queue id)).2) :
    Noted w (.delete queue id) w' := by
  refine noted_write hdisk fun other otherId => ?_
  rw [Storage.deleteMessage, KeyedMap.find?_erase, Label.onRecord]
  by_cases hkey : queue = other ∧ id = otherId
  · rw [if_pos hkey, if_pos (by rw [hkey.1, hkey.2])]
    rfl
  · rw [if_neg hkey, if_neg fun heq => hkey (by cases heq; exact ⟨rfl, rfl⟩)]
    rfl

theorem noted_deleteQueueMessages {queue : String}
    (hdisk : w'.disk = (w.disk.write (Storage.deleteQueueMessages queue)).2) :
    Noted w (.deleteAll queue) w' := by
  refine noted_write hdisk fun other otherId => ?_
  have hcleared := congrArg Option.isSome
    (congrFun (Storage.table_deleteQueueMessages queue w.disk.storage) (other, otherId))
  rw [Storage.table, Option.isSome_map] at hcleared
  rw [hcleared, Label.onRecord]
  by_cases hqueue : queue = other
  · rw [if_pos hqueue, if_pos hqueue.symm]
    rfl
  · rw [if_neg hqueue, if_neg fun heq => hqueue heq.symm, Storage.table, Option.isSome_map]
    rfl

theorem noted_createQueue (name : String) (w : World) :
    Noted w (.create name) (createQueue name w).2 := by
  intro hsound
  have hcreated := (createQueue_of_sound name hsound).2
  refine ⟨hcreated.sound hsound, fun queue id => ?_⟩
  rw [Disk.hasRecord, hcreated.messages]
  rfl

end Noted

/-- A way through a program, while no call to the storage fails. -/
abbrev Way (program : Prog α) (labels : List Label) (result : α) : Prop :=
  Emits (fun w : World => w.disk.Sound) program labels (.done result)

section Ways
variable {labels : List Label}

theorem way_look {view : World → α} {result : α} (h : Way (look view) labels result) :
    labels = [.silent] := by
  cases h with
  | step _ hrest =>
    have ⟨hnil, _⟩ := hrest.done_done
    rw [hnil]

theorem way_write {label : Label} {change : Storage → Storage} {result : Option Err}
    (h : Way (write label change) labels result) : labels = [label] ∧ result = none := by
  cases h with
  | step hsound hrest =>
    have ⟨hnil, hresult⟩ := hrest.done_done
    rw [hsound.write_eq] at hresult
    rw [hnil]
    exact ⟨rfl, hresult.symm⟩

theorem way_locked {label : Queue → Disk → Label}
    {body : Queue → Disk → Go ((Queue × Disk) × α)} {result : α}
    (h : Way (locked (some name) label body) labels result) :
    ∃ q disk next, q.name = name ∧ body q disk = .ok (next, result) ∧ labels = [label q disk] := by
  obtain ⟨w, w', _, hbody, hlabels⟩ := Emits.atomic_done h
  rw [Option.bind_some] at hbody hlabels
  cases hq : w.queue? name with
  | none =>
    rw [hq] at hbody
    cases hbody
  | some q =>
    simp only [hq, Go.bind_eq_ok, Go.pure_eq] at hbody hlabels
    obtain ⟨⟨next, _⟩, hpair, hret⟩ := hbody
    cases hret
    refine ⟨q, w.disk, next, World.queue?_name hq, hpair, ?_⟩
    rw [hlabels, hpair]

theorem way_lockedPure {label : Queue → Label} {body : Queue → Go (Queue × α)} {result : α}
    (h : Way (lockedPure (some name) label body) labels result) :
    ∃ q q', q.name = name ∧ body q = .ok (q', result) ∧ labels = [label q] := by
  obtain ⟨q, disk, next, hname, hbody, hlabels⟩ := way_locked h
  simp only [Go.bind_eq_ok, Go.pure_eq] at hbody
  obtain ⟨pair, hpair, hret⟩ := hbody
  cases hret
  exact ⟨q, pair.1, hname, hpair, hlabels⟩

theorem way_getOrCreateQueueWithError {result : Option Err}
    (h : Way (getOrCreateQueueWithError name) labels result) :
    result = none ∧ (labels = [.silent] ∨ labels = [.silent, .create name]) := by
  have ⟨found, first, rest, hfirst, hrest, hlabels⟩ := h.bind_done
  rw [way_look hfirst] at hlabels
  cases found with
  | true =>
    have ⟨hnil, hresult⟩ := hrest.done_done
    rw [hlabels, hnil]
    exact ⟨hresult.symm, .inl rfl⟩
  | false =>
    cases hrest with
    | step hsound hdone =>
      have ⟨hnil, hresult⟩ := hdone.done_done
      rw [(createQueue_of_sound name hsound).1] at hresult
      rw [hlabels, hnil]
      exact ⟨hresult.symm, .inr rfl⟩

end Ways

end QwerQ
