import QwerQ.Badger.Store

/-! Which names share keys. A queue reads the keys under its name and a colon, and
a name may itself hold colons: two queues are apart exactly when neither name is
the other's, cut at a colon. -/
namespace QwerQ.Badger
open List OrderedStore

def Overlaps (left right : Bytes) : Prop := left ++ [colon] <+: right ∨ right ++ [colon] <+: left

instance (left right : Bytes) : Decidable (Overlaps left right) :=
  inferInstanceAs (Decidable (_ ∨ _))

def kinds : List Bytes := [msgPrefix, streamPrefix, offsetPrefix]

variable {kind other space : Bytes} {db : Db}

section Spaces
variable {left right key : Bytes}

theorem overlaps_of_isPrefix (hne : left ≠ right) (h : left ++ [colon] <+: right ++ [colon]) :
    left ++ [colon] <+: right := by
  rcases prefix_concat_iff.mp h with heq | hshort
  · exact absurd (append_cancel_right heq) hne
  · exact hshort

theorem kind_eq_of_head (hkind : kind ∈ kinds) (hother : other ∈ kinds)
    (h : kind.head? = other.head?) : kind = other := by
  have hheads : ∀ a ∈ kinds, ∀ b ∈ kinds, a.head? = b.head? → a = b := by decide
  exact hheads kind hkind other hother h

theorem head?_keyspace (hkind : kind ∈ kinds) (h : keyspace kind left <+: key) :
    key.head? = kind.head? := by
  obtain ⟨rest, rfl⟩ := h
  have hne : ∀ a ∈ kinds, a ≠ [] := by decide
  obtain ⟨first, tail, rfl⟩ := exists_cons_of_ne_nil (hne kind hkind)
  rfl

theorem overlaps_of_shared (hkind : kind ∈ kinds) (hother : other ∈ kinds)
    (hne : left ≠ right) (hleft : keyspace kind left <+: key)
    (hright : keyspace other right <+: key) : Overlaps left right := by
  obtain rfl : kind = other := kind_eq_of_head hkind hother
    ((head?_keyspace hkind hleft).symm.trans (head?_keyspace hother hright))
  simp only [keyspace, append_assoc] at hleft hright
  rcases prefix_or_prefix_of_prefix hleft hright with h | h
  · exact .inl (overlaps_of_isPrefix hne ((prefix_append_right_inj kind).mp h))
  · exact .inr (overlaps_of_isPrefix hne.symm ((prefix_append_right_inj kind).mp h))

end Spaces

theorem view_congr (formats : Formats) {queue : Bytes} {db' : Db}
    (h : ∀ kind ∈ kinds, db'.under (keyspace kind queue) = db.under (keyspace kind queue)) :
    view formats queue db' = view formats queue db := by
  have hmsg := h msgPrefix (by decide)
  have hstream := h streamPrefix (by decide)
  have hoffset := h offsetPrefix (by decide)
  have hseek (seq : UInt64) : keyspace streamPrefix queue ≤ streamKey queue seq :=
    le_of_isPrefix (prefix_append _ _)
  have hsequence : getStreamSequence formats queue db' = getStreamSequence formats queue db := by
    simp only [getStreamSequence, scanBack_eq _ (prefix_append _ _), hstream]
  unfold view
  congr 1
  · simp only [loadMessages, scan_self, hmsg]
  · funext fromSeq limit
    simp only [loadStreamMessages, scan_eq _ (hseek fromSeq), hstream]
  · simp only [getStreamStats, scan_self, hstream, hsequence]
  · funext group
    simp only [loadConsumerOffset, get_eq _ (prefix_append (keyspace offsetPrefix queue) group),
      offsetKey, hoffset]
  · simp only [loadAllConsumerOffsets, scan_self, hoffset]

theorem update_under {change : Db → Db} (fault : Option String)
    (h : (change db).under space = db.under space) :
    (update fault change db).2.under space = db.under space := by
  cases fault with
  | none => exact h
  | some text => rfl

theorem isPrefix_of_scan {entries : List (Bytes × Bytes)}
    (hsub : entries.Sublist (db.scan space space)) : ∀ key ∈ entries.map Prod.fst, space <+: key := by
  intro key hkey
  obtain ⟨entry, hentry, rfl⟩ := mem_map.mp hkey
  have hscan := hsub.subset hentry
  rw [scan_self] at hscan
  exact (mem_under.mp hscan).2

theorem deleteBatches_keeps (holds : Db → Prop)
    (hkeeps : ∀ db keys, (∀ key ∈ keys, space <+: key) → holds db → holds (db.deleteAll keys))
    (rounds : Nat) (faults : Nat → Option String) (h : holds db) :
    holds (deleteBatches space rounds faults db).2 := by
  induction rounds generalizing faults db with
  | zero => exact h
  | succ rounds ih =>
    have hbatch := hkeeps db _ (isPrefix_of_scan (take_sublist deleteBatchSize (db.scan space space))) h
    simp only [deleteBatches]
    split
    · exact h
    · cases faults 0 with
      | none => exact ih _ hbatch
      | some text => exact h

/-- The space of the keys that a call writes or deletes. -/
def Call.region : Call → Bytes
  | .saveMessage _ msg => keyspace msgPrefix msg.queue
  | .deleteMessage queue _ | .deleteQueueMessages queue => keyspace msgPrefix queue
  | .saveQueue name _ => queueKey name
  | .saveStreamMessage queue _ _ | .deleteStreamMessagesBefore queue _ => keyspace streamPrefix queue
  | .saveConsumerOffset queue _ _ => keyspace offsetPrefix queue

theorem run_outside (formats : Formats) (faults : Nat → Option String) (db : Db) (call : Call)
    (h : ∀ key, call.region <+: key → ¬space <+: key) :
    (call.run formats faults db).under space = db.under space := by
  cases call with
  | saveMessage | saveConsumerOffset => exact update_under _ (under_set _ db (h _ (prefix_append _ _)))
  | saveQueue => exact update_under _ (under_set _ db (h _ (prefix_refl _)))
  | deleteMessage queue id =>
    have hdelete : (db.deleteAll [msgKey queue id]).under space = db.under space :=
      under_deleteAll db (forall_mem_singleton.mpr (h _ (prefix_append _ _)))
    exact update_under _ hdelete
  | deleteQueueMessages queue =>
    refine deleteBatches_keeps (fun db' => db'.under space = db.under space)
      (fun db' keys hkeys hsame => ?_) _ faults rfl
    rw [under_deleteAll db' fun key hmem => h key (hkeys key hmem), hsame]
  | saveStreamMessage queue seq msg =>
    simp only [Call.run, saveStreamMessage]
    split
    · rfl
    · exact update_under _ (under_set _ db (h _ (prefix_append _ _)))
  | deleteStreamMessagesBefore queue seq =>
    exact update_under _ (under_deleteAll db fun key hmem =>
      h key (isPrefix_of_scan (takeWhile_sublist _) key hmem))

theorem run_under {left right : Bytes} (hne : left ≠ right) (hapart : ¬Overlaps left right)
    (hkind : kind ∈ kinds) (formats : Formats) (faults : Nat → Option String) (db : Db) (call : Call)
    (hcall : call.queue = left) :
    (call.run formats faults db).under (keyspace kind right) =
      db.under (keyspace kind right) := by
  subst hcall
  refine run_outside formats faults db call fun key hkey hunder => ?_
  cases call with
  | saveQueue name config =>
    -- the configurations are keys of no kind
    have hheads : ∀ a ∈ kinds, a.head? ≠ queuePrefix.head? := by decide
    obtain ⟨rest, rfl⟩ := hkey
    exact hheads kind hkind (head?_keyspace hkind hunder).symm
  | _ =>
    refine hapart (overlaps_of_shared ?_ hkind hne hkey hunder)
    decide

/-- No call on the one queue changes what any read of the other returns. -/
def Isolated (formats : Formats) (left right : Bytes) : Prop :=
  ∀ db, Reached formats db → ∀ (call : Call) (faults : Nat → Option String), call.queue = left →
    view formats right (call.run formats faults db) = view formats right db

theorem Overlaps.shared_key {left right : Bytes} (h : Overlaps left right) :
    ∃ id, keyspace msgPrefix right <+: msgKey left id := by
  rcases h with ⟨rest, rfl⟩ | ⟨rest, rfl⟩
  · refine ⟨rest ++ [colon], [], ?_⟩
    simp only [msgKey, keyspace, append_assoc, append_nil]
  · refine ⟨[], rest ++ [colon], ?_⟩
    simp only [msgKey, keyspace, append_assoc, append_nil]

theorem collect_ne_nil {decode : α → Except ε β} (entry : α) (rest : List α) :
    collect decode (entry :: rest) ≠ ([], none) := by
  simp only [collect]
  cases decode entry <;> simp

/-- Queues of different names are isolated exactly when neither name, followed by a
colon, begins the other. -/
theorem isolated_iff (formats : Formats) {left right : Bytes} (hne : left ≠ right) :
    Isolated formats left right ↔ ¬Overlaps left right := by
  constructor
  · intro hisolated hoverlaps
    obtain ⟨id, hkey⟩ := hoverlaps.shared_key
    have hview := congrArg View.messages
      (hisolated .empty .empty (.saveMessage [] (blankMessage id left)) (fun _ => none) rfl)
    -- the message saved under the one name is what a scan of the other finds
    simp only [view, loadMessages, scan_self, under, Call.run, saveMessage, update] at hview
    have hentries (value : Bytes) : ((OrderedStore.empty : Db).set (msgKey left id) value).entries =
        [(msgKey left id, value)] := rfl
    have hempty : (OrderedStore.empty : Db).entries = [] := rfl
    rw [show (blankMessage id left).queue = left from rfl,
      show (blankMessage id left).id = id from rfl, hentries, hempty,
      List.filter_cons_of_pos (by simpa using hkey)] at hview
    exact collect_ne_nil _ _ hview
  · intro hapart db _ call faults hcall
    exact view_congr formats fun kind hkind => run_under hne hapart hkind formats faults db call hcall

def noText : Formats where
  marshalConfig _ := []
  marshalStream _ := .error "json: unsupported value"
  unmarshalStream _ := .error "unexpected end of JSON input"
  unmarshalMessage _ _ := .error (.json "unexpected end of JSON input")
  printOffset _ := []
  scanNumber _ := .error "unexpected EOF"

/-- `a` and `ab` are apart although the one begins the other. -/
theorem isolated_of_plain_names :
    [97] ≠ ([97, 98] : Bytes) ∧ Isolated noText [97] [97, 98] :=
  ⟨by decide, (isolated_iff noText (by decide)).mpr (by decide)⟩

/-- Deleting the messages of `a` deletes the message stored in `a:b`. -/
theorem deleteQueueMessages_not_isolated :
    ∃ db, Reached noText db ∧
      (loadMessages noText [97, colon, 98] db).1.map Message.id = [[120]] ∧
      loadMessages noText [97, colon, 98]
        ((Call.deleteQueueMessages [97]).run noText (fun _ => none) db) = ([], none) := by
  refine ⟨_, .call (.saveMessage [] (blankMessage [120] [97, colon, 98])) (fun _ => none) .empty,
    ?_, ?_⟩
  · decide +kernel
  · rfl

end QwerQ.Badger
